import KeyReader.Reference.Ledger
import KeyReader.Regrouping

/-! After each reconciliation the caches that were ever registered are within the limits of the ledger,
if nothing is stored in a cache that the ledger has lost sight of. -/

namespace KeyReader.Reference

open Transition List Table

def Adds (counter : DocumentCacheUsage → Nat) : Prop :=
  ∀ total usage, counter (addUsage total usage) =
    Machine.saturatingAdd (counter total) (counter usage)

theorem adds_memoryBytes : Adds (·.memoryBytes) := fun _ _ => rfl

theorem adds_fileBytes : Adds (·.fileBytes) := fun _ _ => rfl

variable {counter : DocumentCacheUsage → Nat}

theorem Adds.foldl (h : Adds counter) (usages : List DocumentCacheUsage)
    (start : DocumentCacheUsage) (hstart : counter start ≤ Machine.u64Max) :
    counter (usages.foldl addUsage start) =
      min (counter start + (usages.map counter).sum) Machine.u64Max := by
  induction usages generalizing start with
  | nil => simp [hstart]
  | cons usage usages ih =>
    have hnext : counter (addUsage start usage) =
        min (counter start + counter usage) Machine.u64Max := h start usage
    rw [foldl_cons, ih _ (hnext ▸ Nat.min_le_right ..), hnext, map_cons, sum_cons]
    omega

theorem Adds.total_le (h : Adds counter) {usages others : List DocumentCacheUsage}
    (hzero : counter ⟨0, 0, 0⟩ = 0) (hle : (usages.map counter).sum ≤ (others.map counter).sum) :
    counter (totalUsage usages) ≤ counter (totalUsage others) := by
  have hstart : counter ⟨0, 0, 0⟩ ≤ Machine.u64Max := hzero.trans_le (Nat.zero_le _)
  rw [totalUsage, totalUsage, h.foldl _ _ hstart, h.foldl _ _ hstart]
  omega

namespace LiveCaches

variable {live : LiveCaches}

theorem lookup_change (live : LiveCaches) (cache : CacheId) (changed : DocumentCache → DocumentCache)
    (other : CacheId) : (live.change cache changed).lookup other =
      if other = cache then (live.lookup cache).map fun held =>
        { held with cache := changed held.cache }
      else live.lookup other := by
  unfold change
  cases h : live.lookup cache with
  | none =>
    dsimp only
    split
    · rename_i hother
      rw [hother, h]
      rfl
    · rfl
  | some held => exact lookup_insert ..

end LiveCaches

def CacheLedger.Records (ledger : CacheLedger) (cache : CacheId) : Prop :=
  ∃ scope record, ledger.records.lookup scope = some record ∧ record.cache = cache

def Accounted (ledger : CacheLedger) (live : LiveCaches) : Prop :=
  ∀ cache held, live.lookup cache = some held → held.registered = true →
    ledger.Records cache ∨ (held.cache.memoryBytes = 0 ∧ held.cache.fileBytes = 0)

/-- No cache is on record for two scopes. -/
def CacheLedger.Exclusive (ledger : CacheLedger) : Prop :=
  ∀ scope other record record', ledger.records.lookup scope = some record →
    ledger.records.lookup other = some record' → record.cache = record'.cache → scope = other

namespace CacheLedger

variable {ledger : CacheLedger} {live : LiveCaches} {scope : ScopeId} {cache : CacheId}

theorem accounted_purgeScope (h : Accounted ledger live) (scope : ScopeId) :
    Accounted (ledger.purgeScope live scope).1 (ledger.purgeScope live scope).2 := by
  unfold purgeScope
  cases hrecord : ledger.records.lookup scope with
  | none => exact h
  | some record =>
    intro cache held hlive hregistered
    dsimp only [LiveCaches.purge] at hlive
    rw [LiveCaches.lookup_change] at hlive
    split at hlive
    · obtain ⟨before, -, rfl⟩ := Option.map_eq_some_iff.mp hlive
      exact .inr ⟨rfl, rfl⟩
    · rename_i hother
      refine (h cache held hlive hregistered).imp_left ?_
      rintro ⟨found, other, hfound, rfl⟩
      have hne : found ≠ scope := by
        rintro rfl
        exact hother (by rw [Option.some.inj (hfound.symm.trans hrecord)])
      refine ⟨found, other, ?_, rfl⟩
      rw [lookup_erase, if_neg hne]
      exact hfound

theorem exclusive_purgeScope (h : ledger.Exclusive) (live : LiveCaches) (scope : ScopeId) :
    (ledger.purgeScope live scope).1.Exclusive := by
  unfold purgeScope
  cases hrecord : ledger.records.lookup scope with
  | none => exact h
  | some record =>
    intro first second found found' hfirst hsecond
    exact h first second found found' (of_lookup_erase hfirst).2 (of_lookup_erase hsecond).2

theorem limits_purgeScope (ledger : CacheLedger) (live : LiveCaches) (scope : ScopeId) :
    (ledger.purgeScope live scope).1.memoryLimit = ledger.memoryLimit ∧
      (ledger.purgeScope live scope).1.fileLimit = ledger.fileLimit := by
  unfold purgeScope
  split <;> exact ⟨rfl, rfl⟩

theorem evict_preserves {P : CacheLedger → LiveCaches → Prop} (protectedScope : Option ScopeId)
    (hpurge : ∀ ledger live scope, P ledger live →
      P (ledger.purgeScope live scope).1 (ledger.purgeScope live scope).2)
    (rounds : Nat) (h : P ledger live) :
    P (evict protectedScope rounds ledger live).1 (evict protectedScope rounds ledger live).2 := by
  induction rounds generalizing ledger live with
  | zero => exact h
  | succ rounds ih =>
    simp only [evict]
    split
    · exact h
    · split
      · exact h
      · exact ih (hpurge ledger live _ h)

theorem within_of_empty (h : ledger.records.keys.length = 0) :
    ledger.within (ledger.usage live) = true := by
  have hentries : ledger.records.entries = [] := by
    have hkeys := eq_nil_of_length_eq_zero h
    exact map_eq_nil_iff.mp hkeys
  simp [usage, hentries, totalUsage, within]

theorem candidate_eq_some {protectedScope : Option ScopeId}
    (h : ledger.candidate protectedScope = some scope) :
    ∃ record, ledger.records.lookup scope = some record ∧
      (protectedScope = some scope → ∀ other record, ledger.records.lookup other = some record →
        other = scope) := by
  unfold candidate at h
  cases hlowest : Table.lowest (fun scope => decide (some scope ≠ protectedScope)) (·.touched)
      ledger.records with
  | some found =>
    rw [hlowest, Option.some_or] at h
    cases h
    obtain ⟨record, hrecord, htakes, -⟩ := lowest_eq_some hlowest
    refine ⟨record, hrecord, fun hprotected => ?_⟩
    simp [hprotected] at htakes
  | none =>
    rw [hlowest, Option.none_or] at h
    obtain ⟨record, hrecord, -, -⟩ := lowest_eq_some h
    refine ⟨record, hrecord, fun hprotected other found hfound => ?_⟩
    have hnot := lowest_eq_none.mp hlowest other found hfound
    simpa [hprotected] using hnot

theorem candidate_eq_none {protectedScope : Option ScopeId}
    (h : ledger.candidate protectedScope = none) : ledger.records.keys.length = 0 := by
  obtain ⟨-, hlowest⟩ := Option.or_eq_none_iff.mp h
  have hnone := lowest_eq_none.mp hlowest
  refine length_eq_zero_iff.mpr (eq_nil_iff_forall_not_mem.mpr fun scope hscope => ?_)
  obtain ⟨record, hrecord⟩ := Option.isSome_iff_exists.mp
    (AList.lookup_isSome.mpr (AList.mem_keys.mpr hscope))
  exact hnone scope record hrecord rfl

theorem evict_within (protectedScope : Option ScopeId) {rounds : Nat}
    (h : ledger.records.keys.length < rounds) :
    (evict protectedScope rounds ledger live).1.within
      ((evict protectedScope rounds ledger live).1.usage
        (evict protectedScope rounds ledger live).2) = true := by
  induction rounds generalizing ledger live with
  | zero => exact absurd h (Nat.not_lt_zero _)
  | succ rounds ih =>
    simp only [evict]
    split
    · assumption
    · split
      · rename_i hnone
        exact within_of_empty (candidate_eq_none hnone)
      · rename_i scope hscope
        obtain ⟨record, hrecord, -⟩ := candidate_eq_some hscope
        apply ih
        have hmem := AList.mem_keys.mp (mem_of_lookup hrecord)
        have hpos := length_pos_of_mem hmem
        simp only [purgeScope, hrecord, AList.keys_erase, length_erase_of_mem hmem]
        omega

end CacheLedger

variable {ledger : CacheLedger}

/-- The caches that were registered are those of records, apart from some that hold nothing. -/
theorem registeredUsage_le {live : LiveCaches} (h : Accounted ledger live) (hadds : Adds counter)
    (hzero : counter ⟨0, 0, 0⟩ = 0)
    (hempty : ∀ cache : DocumentCache, cache.memoryBytes = 0 ∧ cache.fileBytes = 0 →
      counter cache.usage = 0) :
    counter live.registeredUsage ≤ counter (ledger.usage live) := by
  let weight : CacheId → Nat := fun cache => (live.lookup cache).elim 0 fun held =>
    counter held.cache.usage
  let records := ledger.records.entries.map (·.2)
  have hlive : (((live.entries.filter (·.2.registered)).map (·.2.cache.usage)).map counter).sum =
      (((live.entries.filter (·.2.registered)).map (·.1)).map weight).sum := by
    rw [map_map, map_map]
    congr 1
    apply map_congr_left
    intro entry hentry
    have hlookup := (mem_entries_iff ..).mp (mem_filter.mp hentry).1
    simp [weight, hlookup]
  have hrecords : ((records.filterMap live.usageOf).map counter).sum =
      ((records.map (·.cache)).map weight).sum := by
    induction records with
    | nil => rfl
    | cons record records ih =>
      rw [filterMap_cons, LiveCaches.usageOf]
      cases hlookup : live.lookup record.cache with
      | none | some held => simp [weight, hlookup, ih]
  refine hadds.total_le hzero (hlive.trans_le (le_of_le_of_eq ?_ hrecords.symm))
  refine Regrouping.sum_map_le weight ?_ ?_
  · exact (filter_sublist.map _).nodup live.nodupKeys
  · intro cache hcache hweight
    obtain ⟨entry, hentry, rfl⟩ := mem_map.mp hcache
    obtain ⟨hmem, hregistered⟩ := mem_filter.mp hentry
    have hlookup := (mem_entries_iff ..).mp hmem
    rcases h entry.1 entry.2 hlookup hregistered with hrecord | hnothing
    · obtain ⟨scope, record, hrecord, hsame⟩ := hrecord
      have hfound := (mem_entries_iff ..).mpr hrecord
      exact mem_map.mpr ⟨record, mem_map.mpr ⟨_, hfound, rfl⟩, hsame⟩
    · exact absurd (by simp [weight, hlookup, hempty _ hnothing]) hweight

namespace CacheLedger

variable {ledger : CacheLedger} {live : LiveCaches} {scope : ScopeId} {record : CacheRecord}

theorem exceeds_of_only {held : LiveCache} (hrecord : ledger.records.lookup scope = some record)
    (honly : ∀ other found, ledger.records.lookup other = some found → other = scope)
    (hlive : live.lookup record.cache = some held)
    (hwithin : ¬ledger.within (ledger.usage live) = true) :
    ledger.memoryLimit < held.cache.memoryBytes ∨ ledger.fileLimit < held.cache.fileBytes := by
  have husage : ledger.usage live = addUsage ⟨0, 0, 0⟩ held.cache.usage := by
    simp [usage, entries_eq_singleton hrecord honly, LiveCaches.usageOf, hlive, totalUsage]
  simp only [husage, within, addUsage, DocumentCache.usage, Machine.saturatingAdd,
    Bool.and_eq_true, decide_eq_true_eq] at hwithin
  omega

theorem evict_spares {held : LiveCache} (hexclusive : ledger.Exclusive)
    (hrecord : ledger.records.lookup scope = some record)
    (hlive : live.lookup record.cache = some held) (rounds : Nat) :
    (evict (some scope) rounds ledger live).2.lookup record.cache = some held ∨
      ledger.memoryLimit < held.cache.memoryBytes ∨ ledger.fileLimit < held.cache.fileBytes := by
  induction rounds generalizing ledger live with
  | zero => exact .inl hlive
  | succ rounds ih =>
    simp only [evict]
    split
    · exact .inl hlive
    rename_i hwithin
    split
    · exact .inl hlive
    rename_i other hother
    obtain ⟨found, hfound, honly⟩ := candidate_eq_some hother
    by_cases hsame : scope = other
    · subst hsame
      exact .inr (exceeds_of_only hrecord (honly rfl) hlive hwithin)
    · obtain ⟨hmemory, hfile⟩ := limits_purgeScope ledger live other
      rw [← hmemory, ← hfile]
      apply ih (exclusive_purgeScope hexclusive live other)
      · simp only [purgeScope, hfound]
        rw [lookup_erase, if_neg hsame]
        exact hrecord
      · have hne : record.cache ≠ found.cache := fun heq =>
          hsame (hexclusive scope other record found hrecord hfound heq)
        simp only [purgeScope, hfound, LiveCaches.purge]
        rw [LiveCaches.lookup_change, if_neg hne]
        exact hlive

/-- The ledger as `reconcile` leaves it before it evicts a cache. -/
def prepared (ledger : CacheLedger) (live : LiveCaches) (protectedScope : Option ScopeId) :
    CacheLedger :=
  let records := Table.retainValues (fun record => (live.lookup record.cache).isSome) ledger.records
  protectedScope.elim { ledger with records } ({ ledger with records } : CacheLedger).touch

theorem lookup_touch (ledger : CacheLedger) (scope other : ScopeId) :
    ((ledger.touch scope).records.lookup other).map (·.cache) =
      (ledger.records.lookup other).map (·.cache) := by
  unfold touch
  cases hrecord : ledger.records.lookup scope with
  | none => rfl
  | some record =>
    rw [lookup_insert]
    split
    · rename_i hother
      rw [hother, hrecord]
      rfl
    · rfl

theorem lookup_prepared (ledger : CacheLedger) (live : LiveCaches) (protectedScope : Option ScopeId)
    (scope : ScopeId) :
    ((ledger.prepared live protectedScope).records.lookup scope).map (·.cache) =
      ((ledger.records.lookup scope).map (·.cache)).filter fun cache =>
        (live.lookup cache).isSome := by
  have hretained : ∀ (found : Option CacheRecord),
      (found.filter fun record => (live.lookup record.cache).isSome).map (·.cache) =
        (found.map (·.cache)).filter fun cache => (live.lookup cache).isSome := by
    intro found
    cases found with
    | none => rfl
    | some record =>
      simp only [Option.filter_some, Option.map_some]
      split <;> rfl
  rw [← hretained, ← lookup_retainValues]
  cases protectedScope with
  | none => rfl
  | some scope' => exact lookup_touch ..

theorem prepared_eq_some {protectedScope : Option ScopeId} {cache : CacheId} :
    (∃ record, (ledger.prepared live protectedScope).records.lookup scope = some record ∧
      record.cache = cache) ↔
    (∃ record, ledger.records.lookup scope = some record ∧ record.cache = cache) ∧
      (live.lookup cache).isSome = true := by
  have hlookup := lookup_prepared ledger live protectedScope scope
  have hleft : (∃ record, (ledger.prepared live protectedScope).records.lookup scope = some record ∧
      record.cache = cache) ↔
      ((ledger.prepared live protectedScope).records.lookup scope).map (·.cache) = some cache :=
    Option.map_eq_some_iff.symm
  have hright : (∃ record, ledger.records.lookup scope = some record ∧ record.cache = cache) ↔
      (ledger.records.lookup scope).map (·.cache) = some cache := Option.map_eq_some_iff.symm
  rw [hleft, hlookup, hright, Option.filter_eq_some_iff]

theorem accounted_prepared (h : Accounted ledger live) (protectedScope : Option ScopeId) :
    Accounted (ledger.prepared live protectedScope) live := by
  intro cache held hlive hregistered
  refine (h cache held hlive hregistered).imp_left ?_
  rintro ⟨scope, hrecord⟩
  exact ⟨scope, prepared_eq_some.mpr ⟨hrecord, hlive ▸ rfl⟩⟩

theorem exclusive_prepared (h : ledger.Exclusive) (live : LiveCaches)
    (protectedScope : Option ScopeId) : (ledger.prepared live protectedScope).Exclusive := by
  intro scope other record record' hrecord hrecord' hsame
  obtain ⟨⟨before, hbefore, hcache⟩, -⟩ := prepared_eq_some.mp ⟨record, hrecord, rfl⟩
  obtain ⟨⟨before', hbefore', hcache'⟩, -⟩ := prepared_eq_some.mp ⟨record', hrecord', rfl⟩
  exact h scope other before before' hbefore hbefore' (by rw [hcache, hcache', hsame])

theorem limits_prepared (ledger : CacheLedger) (live : LiveCaches)
    (protectedScope : Option ScopeId) :
    (ledger.prepared live protectedScope).memoryLimit = ledger.memoryLimit ∧
      (ledger.prepared live protectedScope).fileLimit = ledger.fileLimit := by
  cases protectedScope with
  | none => exact ⟨rfl, rfl⟩
  | some scope =>
    unfold prepared
    simp only [Option.elim_some, touch]
    split <;> exact ⟨rfl, rfl⟩

end CacheLedger

namespace Caches

variable {caches : Caches}

instance decidableRecords (ledger : CacheLedger) (cache : CacheId) :
    Decidable (ledger.Records cache) :=
  decidable_of_iff (∃ entry ∈ ledger.records.entries, entry.2.cache = cache) <| by
    constructor
    · rintro ⟨entry, hentry, hcache⟩
      exact ⟨entry.1, entry.2, (mem_entries_iff ..).mp hentry, hcache⟩
    · rintro ⟨scope, record, hrecord, hcache⟩
      exact ⟨⟨scope, record⟩, (mem_entries_iff ..).mpr hrecord, hcache⟩

/-- The cache was registered once. -/
def Registered (caches : Caches) (cache : CacheId) : Prop :=
  (caches.live.lookup cache).any (·.registered) = true

instance decidableRegistered (caches : Caches) (cache : CacheId) :
    Decidable (caches.Registered cache) := inferInstanceAs (Decidable (_ = _))

/-- A cache is registered for one scope at a time, and a job that is not cancelled stores only in a
cache that the ledger has on record, if it was ever registered. -/
def Accountable (caches : Caches) : CacheOperation → Prop
  | .register scope cache =>
    ∀ entry ∈ caches.ledger.records.entries, entry.2.cache = cache → entry.1 = scope
  | .insertMemory cache .. => caches.Registered cache → caches.ledger.Records cache
  | .insertFile cache _ stream =>
    stream.cancelled = false → caches.Registered cache → caches.ledger.Records cache
  | _ => True

instance decidableAccountable (caches : Caches) :
    (operation : CacheOperation) → Decidable (caches.Accountable operation)
  | .register .. =>
    inferInstanceAs (Decidable (∀ entry ∈ caches.ledger.records.entries, _ → _))
  | .insertMemory .. => inferInstanceAs (Decidable (_ → _))
  | .insertFile .. => inferInstanceAs (Decidable (_ → _ → _))
  | .create .. | .drop .. | .remove .. | .purge .. | .purgeScope .. | .reconcile .. => isTrue trivial

structure Kept (caches : Caches) (memoryLimit fileLimit : Nat) : Prop where
  accounted : Accounted caches.ledger caches.live
  exclusive : caches.ledger.Exclusive
  memoryLimit : caches.ledger.memoryLimit = memoryLimit
  fileLimit : caches.ledger.fileLimit = fileLimit

variable {memoryLimit fileLimit : Nat}

theorem accounted_change {live : LiveCaches} (h : Accounted ledger live) {cache : CacheId}
    {changed : DocumentCache → DocumentCache}
    (hchanged : ∀ held, live.lookup cache = some held → held.registered = true →
      ledger.Records cache ∨ (held.cache.memoryBytes = 0 ∧ held.cache.fileBytes = 0 →
      (changed held.cache).memoryBytes = 0 ∧ (changed held.cache).fileBytes = 0)) :
    Accounted ledger (live.change cache changed) := by
  intro other held hlive hregistered
  rw [LiveCaches.lookup_change] at hlive
  split at hlive
  · rename_i hother
    subst hother
    obtain ⟨before, hbefore, rfl⟩ := Option.map_eq_some_iff.mp hlive
    rcases hchanged before hbefore hregistered with hrecord | hempty
    · exact .inl hrecord
    · exact (h other before hbefore hregistered).imp_right hempty
  · exact h other held hlive hregistered

theorem kept_insert (h : caches.Kept memoryLimit fileLimit) {cache : CacheId}
    {inserted : DocumentCache → Except CacheError DocumentCache}
    (hrecord : (∀ held next, inserted held ≠ .ok next) ∨
      (caches.Registered cache → caches.ledger.Records cache)) :
    (caches.insert cache inserted).Kept memoryLimit fileLimit := by
  refine ⟨accounted_change h.accounted fun held hheld hregistered => ?_, h.exclusive, h.memoryLimit,
    h.fileLimit⟩
  rcases hrecord with hfails | hrecord
  · refine .inr fun hempty => ?_
    cases hinserted : inserted held.cache with
    | error error => exact hempty
    | ok next => exact absurd hinserted (hfails held.cache next)
  · refine .inl (hrecord ?_)
    rw [Registered, hheld]
    exact hregistered

theorem records_insert {scope : ScopeId} {cache other : CacheId} (h : ledger.Records other)
    (clock touched : Nat) :
    ({ ledger with clock, records := ledger.records.insert scope ⟨cache, touched⟩ } :
      CacheLedger).Records other ∨
      ∃ previous, ledger.records.lookup scope = some previous ∧ previous.cache = other := by
  obtain ⟨found, record, hrecord, hcache⟩ := h
  by_cases hscope : found = scope
  · subst hscope
    exact .inr ⟨record, hrecord, hcache⟩
  · refine .inl ⟨found, record, ?_, hcache⟩
    rw [lookup_insert, if_neg hscope]
    exact hrecord

section

variable (h : caches.Kept memoryLimit fileLimit)

include h

theorem kept_register {scope : ScopeId} {cache : CacheId}
    (honly : ∀ entry ∈ caches.ledger.records.entries, entry.2.cache = cache → entry.1 = scope) :
    (caches.step (.register scope cache)).Kept memoryLimit fileLimit := by
  obtain ⟨ledger, live, nextCache⟩ := caches
  obtain ⟨haccounted, hexclusive, hmemory, hfile⟩ := h
  simp only [step]
  cases hheld : live.lookup cache with
  | none => exact ⟨haccounted, hexclusive, hmemory, hfile⟩
  | some held =>
    let marked : LiveCaches := live.insert cache { held with registered := true }
    let next : CacheLedger := { ledger with
      clock := (ledger.clock + 1) % (Machine.u64Max + 1)
      records := ledger.records.insert scope ⟨cache, ledger.clock⟩ }
    have hself : next.Records cache := ⟨scope, _, AList.lookup_insert .., rfl⟩
    have hmarked : ∀ other found, marked.lookup other = some found → found.registered = true →
        next.Records other ∨ (found.cache.memoryBytes = 0 ∧ found.cache.fileBytes = 0) ∨
          ∃ previous, ledger.records.lookup scope = some previous ∧ previous.cache = other := by
      intro other found hfound hregistered
      rcases of_lookup_insert hfound with ⟨rfl, -⟩ | ⟨-, hfound⟩
      · exact .inl hself
      · rcases haccounted other found hfound hregistered with hrecord | hempty
        · exact (records_insert hrecord _ _).imp_right .inr
        · exact .inr (.inl hempty)
    have hexclusive' : next.Exclusive := by
      have hothers : ∀ other record, ledger.records.lookup other = some record →
          record.cache = cache → other = scope := fun other record hrecord hcache =>
        honly ⟨other, record⟩ ((mem_entries_iff ..).mpr hrecord) hcache
      intro first second record record' hrecord hrecord' hsame
      rcases of_lookup_insert hrecord with ⟨rfl, rfl⟩ | ⟨-, hfirst⟩ <;>
        rcases of_lookup_insert hrecord' with ⟨rfl, rfl⟩ | ⟨-, hsecond⟩
      · rfl
      · exact (hothers second record' hsecond hsame.symm).symm
      · exact hothers first record hfirst hsame
      · exact hexclusive first second record record' hfirst hsecond hsame
    simp only [CacheLedger.register, CacheLedger.tick]
    cases hprevious : ledger.records.lookup scope with
    | none =>
      refine ⟨fun other found hfound hregistered => ?_, hexclusive', hmemory, hfile⟩
      simpa [hprevious] using hmarked other found hfound hregistered
    | some previous =>
      dsimp only
      split
      · rename_i hcache
        refine ⟨fun other found hfound hregistered => ?_, hexclusive', hmemory, hfile⟩
        rcases hmarked other found hfound hregistered with hrecord | hempty | ⟨_, hlookup, rfl⟩
        · exact .inl hrecord
        · exact .inr hempty
        · cases hprevious.symm.trans hlookup
          rw [hcache]
          exact .inl hself
      · refine ⟨fun other found hfound hregistered => ?_, hexclusive', hmemory, hfile⟩
        dsimp only [LiveCaches.purge] at hfound
        rw [LiveCaches.lookup_change] at hfound
        split at hfound
        · obtain ⟨before, -, rfl⟩ := Option.map_eq_some_iff.mp hfound
          exact .inr ⟨rfl, rfl⟩
        · rename_i hother
          rcases hmarked other found hfound hregistered with hrecord | hempty | ⟨_, hlookup, rfl⟩
          · exact .inl hrecord
          · exact .inr hempty
          · exact absurd (congrArg _ (Option.some.inj (hlookup.symm.trans hprevious))) hother

theorem kept_purgeScope (scope : ScopeId) :
    (caches.step (.purgeScope scope)).Kept memoryLimit fileLimit := by
  have hlimits := caches.ledger.limits_purgeScope caches.live scope
  exact ⟨CacheLedger.accounted_purgeScope h.accounted scope,
    CacheLedger.exclusive_purgeScope h.exclusive caches.live scope,
    hlimits.1.trans h.memoryLimit, hlimits.2.trans h.fileLimit⟩

theorem kept_reconcile (protectedScope : Option ScopeId) :
    (caches.step (.reconcile protectedScope)).Kept memoryLimit fileLimit := by
  obtain ⟨hmemory, hfile⟩ := caches.ledger.limits_prepared caches.live protectedScope
  let prepared := caches.ledger.prepared caches.live protectedScope
  let P : CacheLedger → LiveCaches → Prop := fun ledger live =>
    Kept ⟨ledger, live, caches.nextCache⟩ memoryLimit fileLimit
  have hprepared : P prepared caches.live :=
    ⟨CacheLedger.accounted_prepared h.accounted protectedScope,
      CacheLedger.exclusive_prepared h.exclusive caches.live protectedScope,
      hmemory.trans h.memoryLimit, hfile.trans h.fileLimit⟩
  have hpurge : ∀ ledger live scope, P ledger live →
      P (ledger.purgeScope live scope).1 (ledger.purgeScope live scope).2 :=
    fun _ _ scope h => kept_purgeScope h scope
  exact CacheLedger.evict_preserves protectedScope hpurge (prepared.records.keys.length + 1) hprepared

theorem kept_step {operation : CacheOperation} (haccountable : caches.Accountable operation) :
    (caches.step operation).Kept memoryLimit fileLimit := by
  cases operation with
  | create limits =>
    simp only [step]
    cases DocumentCache.new limits with
    | error error => exact h
    | ok cache =>
      refine ⟨fun other held hlive hregistered => ?_, h.exclusive, h.memoryLimit, h.fileLimit⟩
      rcases of_lookup_insert hlive with ⟨-, rfl⟩ | ⟨-, hlive⟩
      · cases hregistered
      · exact h.accounted other held hlive hregistered
  | drop cache =>
    refine ⟨fun other held hlive hregistered => ?_, h.exclusive, h.memoryLimit, h.fileLimit⟩
    exact h.accounted other held (of_lookup_erase hlive).2 hregistered
  | register scope cache => exact kept_register h haccountable
  | insertMemory cache key bytes => exact kept_insert h (.inr haccountable)
  | insertFile cache key stream =>
    refine kept_insert h ?_
    cases hcancelled : stream.cancelled with
    | true => exact .inl fun _ _ h => by cases hcancelled.symm.trans (DocumentCache.insertFile_eq_ok h).1
    | false => exact .inr (haccountable hcancelled)
  | remove cache key =>
    refine ⟨accounted_change h.accounted fun held _ _ => .inr ?_, h.exclusive, h.memoryLimit,
      h.fileLimit⟩
    rintro ⟨hmemory, hfile⟩
    simp [DocumentCache.remove, hmemory, hfile]
  | purge cache =>
    exact ⟨accounted_change h.accounted fun held _ _ => .inr fun _ => ⟨rfl, rfl⟩, h.exclusive,
      h.memoryLimit, h.fileLimit⟩
  | purgeScope scope => exact kept_purgeScope h scope
  | reconcile protectedScope => exact kept_reconcile h protectedScope

end

/-- The caches that were ever registered are within the limits after a reconciliation, which purges
the cache of the protected scope only if it is too large by itself. -/
structure Reconciles (caches : Caches) (memoryLimit fileLimit : Nat) : Prop where
  memory : ∀ protectedScope,
    (caches.step (.reconcile protectedScope)).live.registeredUsage.memoryBytes ≤ memoryLimit
  file : ∀ protectedScope,
    (caches.step (.reconcile protectedScope)).live.registeredUsage.fileBytes ≤ fileLimit
  spared : ∀ scope record held, caches.ledger.records.lookup scope = some record →
    caches.live.lookup record.cache = some held →
      (caches.step (.reconcile (some scope))).live.lookup record.cache = some held ∨
        memoryLimit < held.cache.memoryBytes ∨ fileLimit < held.cache.fileBytes

theorem Kept.reconciles (h : caches.Kept memoryLimit fileLimit) :
    caches.Reconciles memoryLimit fileLimit := by
  have hwithin : ∀ protectedScope,
      (caches.step (.reconcile protectedScope)).live.registeredUsage.memoryBytes ≤ memoryLimit ∧
      (caches.step (.reconcile protectedScope)).live.registeredUsage.fileBytes ≤ fileLimit := by
    intro protectedScope
    have hafter := kept_reconcile h protectedScope
    have husage := @CacheLedger.evict_within (caches.ledger.prepared caches.live protectedScope)
      caches.live protectedScope _ (Nat.lt_succ_self _)
    obtain ⟨hmemory, hfile⟩ := Bool.and_eq_true_iff.mp husage
    have hmemoryLe := registeredUsage_le hafter.accounted adds_memoryBytes rfl fun _ h => h.1
    have hfileLe := registeredUsage_le hafter.accounted adds_fileBytes rfl fun _ h => h.2
    exact ⟨hmemoryLe.trans ((of_decide_eq_true hmemory).trans hafter.memoryLimit.le),
      hfileLe.trans ((of_decide_eq_true hfile).trans hafter.fileLimit.le)⟩
  refine ⟨fun p => (hwithin p).1, fun p => (hwithin p).2, fun scope record held hrecord hlive => ?_⟩
  obtain ⟨found, hfound, hcache⟩ := (@CacheLedger.prepared_eq_some caches.ledger caches.live scope
    (some scope) record.cache).mpr ⟨⟨record, hrecord, rfl⟩, hlive ▸ rfl⟩
  obtain ⟨hmemory, hfile⟩ := caches.ledger.limits_prepared caches.live (some scope)
  have hspares := CacheLedger.evict_spares
    (CacheLedger.exclusive_prepared h.exclusive caches.live (some scope)) hfound
    (hcache ▸ hlive) ((caches.ledger.prepared caches.live (some scope)).records.keys.length + 1)
  rwa [hcache, hmemory, hfile, h.memoryLimit, h.fileLimit] at hspares

def next (caches : Caches) (operation : CacheOperation) : Option Caches :=
  some (caches.step operation)

/-- Over every run in which the ledger sees what is stored, it keeps the caches within its limits. -/
theorem run_within_limits (memoryLimit fileLimit : Nat) (operations : List CacheOperation)
    (h : Along next Accountable (new memoryLimit fileLimit) operations) :
    ∃ caches, run next (new memoryLimit fileLimit) operations = some caches ∧
      caches.Reconciles memoryLimit fileLimit := by
  have hnew : (new memoryLimit fileLimit).Kept memoryLimit fileLimit := by
    refine ⟨fun cache held hlive => ?_, fun scope other record record' hrecord => ?_, rfl, rfl⟩
    · simp [new] at hlive
    · simp [new, CacheLedger.new] at hrecord
  have hstep : ∀ (caches : Caches) operation, caches.Kept memoryLimit fileLimit →
      caches.Accountable operation → ∃ after, caches.next operation = some after ∧
        after.Kept memoryLimit fileLimit :=
    fun caches operation h haccountable => ⟨_, rfl, kept_step h haccountable⟩
  obtain ⟨caches, hrun, hkept⟩ := run_succeeds hstep hnew h
  exact ⟨caches, hrun, hkept.reconciles⟩

def smallLimits : DocumentCacheLimits := ⟨1, 64, 64, 4⟩

def store (cache : CacheId) (key : String) : CacheOperation :=
  .insertFile cache key ⟨.ok (), [⟨false, .ok (List.replicate 8 0), .ok ()⟩], false, .ok ()⟩

def seenOperations : List CacheOperation :=
  [.create smallLimits, .create smallLimits, .register 1 0, store 0 "first", .register 2 1,
    store 1 "second", .reconcile (some 2), .register 1 0, store 0 "third"]

theorem seenOperations_within : ∃ caches, run next (new 8 8) seenOperations = some caches ∧
    caches.Reconciles 8 8 :=
  run_within_limits 8 8 seenOperations (by decide)

def unseenOperations : List CacheOperation :=
  [.create smallLimits, .create smallLimits, .register 1 0, store 0 "first", .register 2 1,
    store 1 "second", .reconcile (some 2), store 0 "third"]

theorem unseenOperations_exceed : ∃ caches, run next (new 8 8) unseenOperations = some caches ∧
    ¬caches.Reconciles 8 8 := by
  have hfile : ((run next (new 8 8) unseenOperations).any fun caches =>
      decide ((caches.step (.reconcile (some 2))).live.registeredUsage.fileBytes = 16)) = true := by
    decide
  obtain ⟨caches, hrun, husage⟩ := (Option.any_eq_true ..).mp hfile
  refine ⟨caches, hrun, fun hreconciles => ?_⟩
  have hle := hreconciles.file (some 2)
  rw [of_decide_eq_true husage] at hle
  exact absurd hle (by decide)

end Caches

end KeyReader.Reference
