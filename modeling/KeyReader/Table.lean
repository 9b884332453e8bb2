import Mathlib.Data.List.AList
import Mathlib.Data.List.MinMax

/-! Tables with one value for each key, for a key type with decidable equality: a lookup after each
operation, the entries of the lowest and the highest rank, and the total weight of the values. -/

namespace KeyReader.Table

open List

variable {α β : Type} [DecidableEq α]

theorem lookup_insert (table : AList fun _ : α => β) (key other : α) (value : β) :
    (table.insert key value).lookup other = if other = key then some value
      else table.lookup other := by
  split
  · rename_i h
    rw [h, AList.lookup_insert]
  · rename_i h
    exact AList.lookup_insert_ne h

theorem lookup_erase (table : AList fun _ : α => β) (key other : α) :
    (table.erase key).lookup other = if other = key then none else table.lookup other := by
  split
  · rename_i h
    rw [h, AList.lookup_erase]
  · rename_i h
    exact AList.lookup_erase_ne h

theorem of_lookup_insert {table : AList fun _ : α => β} {key other : α} {value found : β}
    (h : (table.insert key value).lookup other = some found) :
    other = key ∧ value = found ∨ other ≠ key ∧ table.lookup other = some found := by
  rw [lookup_insert] at h
  split at h
  · exact .inl ⟨‹_›, Option.some.inj h⟩
  · exact .inr ⟨‹_›, h⟩

theorem of_lookup_erase {table : AList fun _ : α => β} {key other : α} {found : β}
    (h : (table.erase key).lookup other = some found) :
    other ≠ key ∧ table.lookup other = some found := by
  rw [lookup_erase] at h
  split at h
  · cases h
  · exact ⟨‹_›, h⟩

theorem dlookup_filter {entries : List (Σ _ : α, β)} (nodup : entries.NodupKeys)
    (takes : α → β → Bool) (key : α) :
    (entries.filter fun entry => takes entry.1 entry.2).dlookup key =
      (entries.dlookup key).filter (takes key) := by
  induction entries with
  | nil => rfl
  | cons entry entries ih =>
    obtain ⟨other, value⟩ := entry
    have hrest := ih nodup.tail
    by_cases h : key = other
    · subst h
      rw [dlookup_cons_eq]
      by_cases htakes : takes key value
      · simp [htakes, Option.filter]
      · have habsent : entries.dlookup key = none := dlookup_eq_none.mpr (nodupKeys_cons.mp nodup).1
        rw [filter_cons_of_neg (by exact htakes), hrest, habsent]
        simp [htakes, Option.filter]
    · rw [dlookup_cons_ne _ _ h, ← hrest]
      by_cases htakes : takes other value
      · rw [filter_cons_of_pos (by exact htakes), dlookup_cons_ne _ _ h]
      · rw [filter_cons_of_neg (by exact htakes)]

/-- The entries whose keys are taken: `retain`. -/
def retain (takes : α → Bool) (table : AList fun _ : α => β) : AList fun _ : α => β :=
  ⟨table.entries.filter fun entry => takes entry.1, table.nodupKeys.sublist (filter_sublist)⟩

theorem lookup_retain (takes : α → Bool) (table : AList fun _ : α => β) (key : α) :
    (retain takes table).lookup key = if takes key then table.lookup key else none := by
  refine (dlookup_filter table.nodupKeys (fun key _ => takes key) key).trans ?_
  show (table.lookup key).filter _ = _
  cases table.lookup key <;> simp [Option.filter]

def retainValues (takes : β → Bool) (table : AList fun _ : α => β) : AList fun _ : α => β :=
  ⟨table.entries.filter fun entry => takes entry.2, table.nodupKeys.sublist (filter_sublist)⟩

theorem lookup_retainValues (takes : β → Bool) (table : AList fun _ : α => β) (key : α) :
    (retainValues takes table).lookup key = (table.lookup key).filter takes :=
  dlookup_filter table.nodupKeys (fun _ => takes) key

/-- The table with another value for each key. -/
def mapValues {γ : Type} (f : α → β → γ) (table : AList fun _ : α => β) : AList fun _ : α => γ :=
  ⟨table.entries.map fun entry => ⟨entry.1, f entry.1 entry.2⟩, by
    have nodup := table.nodupKeys
    rwa [List.NodupKeys, List.keys, map_map]⟩

theorem lookup_mapValues {γ : Type} (f : α → β → γ) (table : AList fun _ : α => β) (key : α) :
    (mapValues f table).lookup key = (table.lookup key).map (f key) := by
  obtain ⟨entries, nodup⟩ := table
  show (entries.map fun entry => (⟨entry.1, f entry.1 entry.2⟩ : Σ _ : α, γ)).dlookup key =
    (entries.dlookup key).map (f key)
  clear nodup
  induction entries with
  | nil => rfl
  | cons entry entries ih =>
    obtain ⟨other, value⟩ := entry
    rw [map_cons]
    by_cases h : key = other
    · subst h
      rw [dlookup_cons_eq, dlookup_cons_eq, Option.map_some]
    · rw [dlookup_cons_ne _ _ h, dlookup_cons_ne _ _ h, ih]

theorem mem_entries_iff (table : AList fun _ : α => β) (key : α) (value : β) :
    ⟨key, value⟩ ∈ table.entries ↔ table.lookup key = some value :=
  (AList.mem_lookup_iff).symm

variable {key : α} {table : AList fun _ : α => β} {value : β}

theorem entries_perm_erase (h : table.lookup key = some value) :
    table.entries.Perm (⟨key, value⟩ :: (table.erase key).entries) := by
  obtain ⟨entries, nodup⟩ := table
  change entries.dlookup key = some value at h
  show entries.Perm (⟨key, value⟩ :: entries.kerase key)
  clear nodup
  induction entries with
  | nil => cases h
  | cons entry entries ih =>
    obtain ⟨other, found⟩ := entry
    by_cases hkey : key = other
    · subst hkey
      rw [dlookup_cons_eq] at h
      cases h
      simp
    · rw [dlookup_cons_ne _ _ hkey] at h
      rw [kerase_cons_ne hkey]
      exact ((ih h).cons _).trans (.swap ..)

theorem entries_eq_singleton (h : table.lookup key = some value)
    (honly : ∀ other found, table.lookup other = some found → other = key) :
    table.entries = [⟨key, value⟩] := by
  have herase : (table.erase key).entries = [] := by
    refine eq_nil_iff_forall_not_mem.mpr fun entry hentry => ?_
    have hlookup := (mem_entries_iff ..).mp hentry
    obtain ⟨hne, hlookup⟩ := of_lookup_erase hlookup
    exact hne (honly entry.1 entry.2 hlookup)
  have hperm := entries_perm_erase h
  rw [herase] at hperm
  exact perm_singleton.mp hperm

theorem entries_insert_of_lookup (value : β) (h : table.lookup key = none) :
    (table.insert key value).entries = ⟨key, value⟩ :: table.entries := by
  have hmem : key ∉ table := AList.lookup_eq_none.mp h
  exact AList.entries_insert_of_notMem hmem

section ranks

variable {γ : Type} [LinearOrder γ]

/-- The key of the lowest rank among those that are taken. -/
def lowest (takes : α → Bool) (rank : β → γ) (table : AList fun _ : α => β) : Option α :=
  ((table.entries.filter fun entry => takes entry.1).argmin fun entry => rank entry.2).map (·.1)

/-- The key of the highest rank among those that are taken. -/
def highest (takes : α → Bool) (rank : β → γ) (table : AList fun _ : α => β) : Option α :=
  ((table.entries.filter fun entry => takes entry.1).argmax fun entry => rank entry.2).map (·.1)

variable {rank : β → γ} {takes : α → Bool}

theorem lowest_eq_some (h : lowest takes rank table = some key) :
    ∃ value, table.lookup key = some value ∧ takes key ∧
      ∀ other found, table.lookup other = some found → takes other → rank value ≤ rank found := by
  obtain ⟨⟨_, value⟩, hmin, rfl⟩ := Option.map_eq_some_iff.mp h
  obtain ⟨hmem, htakes⟩ := mem_filter.mp (argmin_mem hmin)
  refine ⟨value, (mem_entries_iff ..).mp hmem, htakes, fun other found hfound hother => ?_⟩
  have hentry : (⟨other, found⟩ : Σ _ : α, β) ∈ table.entries.filter fun entry => takes entry.1 :=
    mem_filter.mpr ⟨(mem_entries_iff ..).mpr hfound, hother⟩
  have hle := le_of_mem_argmin hentry hmin
  exact hle

theorem highest_eq_some (h : highest takes rank table = some key) :
    ∃ value, table.lookup key = some value ∧ takes key ∧
      ∀ other found, table.lookup other = some found → takes other → rank found ≤ rank value :=
  lowest_eq_some (γ := γᵒᵈ) h

theorem lowest_eq_none :
    lowest takes rank table = none ↔ ∀ key value, table.lookup key = some value → ¬takes key := by
  rw [lowest, Option.map_eq_none_iff, argmin_eq_none, filter_eq_nil_iff]
  constructor
  · intro h key value hvalue
    exact h ⟨key, value⟩ ((mem_entries_iff ..).mpr hvalue)
  · rintro h ⟨key, value⟩ hmem
    exact h key value ((mem_entries_iff ..).mp hmem)

theorem highest_eq_none :
    highest takes rank table = none ↔ ∀ key value, table.lookup key = some value → ¬takes key :=
  lowest_eq_none (γ := γᵒᵈ)

end ranks

theorem update_eq_some {f : α → Option β} {other : α} {found : β} :
    Function.update f key (some value) other = some found ↔
      (other = key ∧ value = found) ∨ (other ≠ key ∧ f other = some found) := by
  by_cases h : other = key
  · subst h
    simp
  · simp [h]

section

variable (weight : β → Nat) (table : AList fun _ : α => β)

def total : Nat :=
  table.entries.foldr (fun entry sum => weight entry.2 + sum) 0

theorem total_erase (key : α) :
    total weight (table.erase key) + (table.lookup key).elim 0 weight = total weight table := by
  obtain ⟨entries, nodup⟩ := table
  show (entries.kerase key).foldr (fun entry sum => weight entry.2 + sum) 0 +
      (entries.dlookup key).elim 0 weight =
    entries.foldr (fun entry sum => weight entry.2 + sum) 0
  clear nodup
  induction entries with
  | nil => rfl
  | cons entry entries ih =>
    obtain ⟨other, value⟩ := entry
    by_cases h : key = other
    · subst h
      simp [Nat.add_comm]
    · rw [kerase_cons_ne h, dlookup_cons_ne _ _ h]
      show weight value + _ + _ = weight value + _
      omega

theorem total_insert (key : α) (value : β) :
    total weight (table.insert key value) + (table.lookup key).elim 0 weight =
      total weight table + weight value := by
  have herase := total_erase weight table key
  have hinsert : total weight (table.insert key value) =
      weight value + total weight (table.erase key) := by
    unfold total
    rw [AList.entries_insert]
    rfl
  omega

end

theorem length_keys_insert_le (table : AList fun _ : α => β) (key : α) (value : β) :
    (table.insert key value).keys.length ≤ table.keys.length + 1 := by
  rw [AList.keys_insert, length_cons]
  have := length_erase_le (a := key) (l := table.keys)
  omega

theorem length_keys_insert (value : β) (h : key ∈ table) :
    (table.insert key value).keys.length = table.keys.length := by
  have hmem := AList.mem_keys.mp h
  have hpos := length_pos_of_mem hmem
  rw [AList.keys_insert, length_cons, length_erase_of_mem hmem]
  omega

theorem length_keys_erase_le (table : AList fun _ : α => β) (key : α) :
    (table.erase key).keys.length ≤ table.keys.length := by
  rw [AList.keys_erase]
  exact length_erase_le

theorem mem_of_lookup (h : table.lookup key = some value) : key ∈ table := by
  rw [← AList.lookup_isSome, h]
  rfl

end KeyReader.Table
