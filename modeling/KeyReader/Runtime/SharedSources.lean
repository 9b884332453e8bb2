import KeyReader.Runtime.Displacement

/-! The items of a batch share one cancellation source: when the removal of one cancels another that
is still pending. -/

namespace KeyReader.Runtime.WorkQueue

open List Table

variable {S : Type} {start queue : WorkQueue S} {workClass : WorkClass} {source capacity : Nat}
  {work : List Work} {item : Work}

def Holds (queue : WorkQueue S) (workClass : WorkClass) : Prop :=
  ∃ key entry, key.workClass = some workClass ∧ queue.pending.lookup key = some entry

/-- All places are taken by work of higher priority. -/
def Outranked (queue : WorkQueue S) (capacity : Nat) (item : Work) : Prop :=
  queue.pending.keys.length = capacity ∧ ∀ key entry, key ≠ .opening →
    queue.pending.lookup key = some entry → item.priority < entry.priority

theorem rank_lt_of_priority {entry other : PendingWork S} (h : entry.priority < other.priority) :
    entry.rank < other.rank :=
  Prod.Lex.toLex_lt_toLex.mpr (.inl h)

theorem priority_le_of_rank {entry other : PendingWork S} (h : entry.rank ≤ other.rank) :
    entry.priority ≤ other.priority := by
  rcases Prod.Lex.toLex_le_toLex.mp h with h | ⟨h, -⟩
  · exact Nat.le_of_lt h
  · exact Nat.le_of_eq h

theorem priority_lt_of_rank {entry other : PendingWork S} (h : entry.rank ≤ other.rank)
    (hsequence : other.sequence < entry.sequence) : entry.priority < other.priority := by
  rcases Prod.Lex.toLex_le_toLex.mp h with h | ⟨-, h⟩
  · exact h
  · exact absurd hsequence (Nat.not_lt.mpr h)

theorem Fed.holds_put (h : start.Fed workClass source capacity work queue)
    (hfits : item.fits workClass) (hholds : queue.Holds workClass) :
    (queue.put workClass source capacity item).2.Holds workClass := by
  obtain ⟨henters, -⟩ := put_enters h.bounded workClass source item
  have hclass := Work.workClass_key hfits
  cases henters with
  | fits hroom pending cancelled =>
    refine ⟨_, queue.entry workClass source item, hclass, ?_⟩
    rw [pending, lookup_insert, if_pos rfl]
  | evicts absent full lowest evicted notOpening present minimal pending cancelled =>
    by_cases hlowest : item.key workClass = lowest
    · obtain ⟨key, entry, hkey, hentry⟩ := hholds
      have hne : key ≠ item.key workClass := by
        rintro rfl
        cases absent.symm.trans hentry
      refine ⟨key, entry, hkey, ?_⟩
      rw [pending, lookup_erase, if_neg (hlowest ▸ hne), lookup_insert, if_neg hne, hentry]
    · refine ⟨_, queue.entry workClass source item, hclass, ?_⟩
      rw [pending, lookup_erase, if_neg hlowest, lookup_insert, if_pos rfl]

/-- An item that finds no work of its class is refused exactly when it is outranked, and then
nothing changes. -/
theorem Fed.refuses_put (h : start.Fed workClass source capacity work queue)
    (hfits : item.fits workClass) (hholds : ¬queue.Holds workClass) :
    (¬(queue.put workClass source capacity item).2.Holds workClass ↔
        queue.Outranked capacity item) ∧
      (queue.Outranked capacity item →
        (∀ key, (queue.put workClass source capacity item).2.pending.lookup key =
          queue.pending.lookup key) ∧
        (queue.put workClass source capacity item).2.pending.keys.length = capacity) := by
  obtain ⟨henters, -⟩ := put_enters h.bounded workClass source item
  generalize (queue.put workClass source capacity item).2 = next at henters ⊢
  have hclass := Work.workClass_key hfits
  have habsent : queue.pending.lookup (item.key workClass) = none :=
    Option.eq_none_iff_forall_ne_some.mpr fun entry hentry => hholds ⟨_, entry, hclass, hentry⟩
  have hlength := length_keys_insert_of_lookup habsent (queue.entry workClass source item)
  have hitem : (queue.pending.insert (item.key workClass)
      (queue.entry workClass source item)).lookup (item.key workClass) =
        some (queue.entry workClass source item) := (lookup_insert ..).trans (if_pos rfl)
  cases henters with
  | fits hroom pending cancelled =>
    have hnext : next.Holds workClass := ⟨_, _, hclass, pending ▸ hitem⟩
    have houtranked : ¬queue.Outranked capacity item := fun houtranked => by
      have hfull := houtranked.1
      omega
    exact ⟨by simp [hnext, houtranked], fun houtranked' => absurd houtranked' houtranked⟩
  | evicts absent full lowest evicted notOpening present minimal pending cancelled =>
    by_cases hlowest : item.key workClass = lowest
    · subst hlowest
      cases hitem.symm.trans present
      have hlookup : ∀ key, next.pending.lookup key = queue.pending.lookup key := by
        intro key
        rw [pending, lookup_erase, lookup_insert]
        by_cases hkey : key = item.key workClass
        · rw [if_pos hkey, hkey, absent]
        · rw [if_neg hkey, if_neg hkey]
      have hnext : ¬next.Holds workClass := by
        rintro ⟨key, entry, hkey, hentry⟩
        exact hholds ⟨key, entry, hkey, (hlookup key).symm.trans hentry⟩
      have houtranked : queue.Outranked capacity item := by
        refine ⟨full, fun key entry hkey hentry => ?_⟩
        have hne : key ≠ item.key workClass := by
          rintro rfl
          cases absent.symm.trans hentry
        have hrank := minimal key entry hkey ((lookup_insert ..).trans ((if_neg hne).trans hentry))
        exact priority_lt_of_rank hrank (h.numbered key entry hentry)
      refine ⟨iff_of_true hnext houtranked, fun _ => ⟨hlookup, ?_⟩⟩
      have hmem := AList.mem_keys.mp (mem_of_lookup hitem)
      rw [pending, AList.keys_erase, length_erase_of_mem hmem]
      omega
    · have hnext : next.Holds workClass := by
        refine ⟨_, queue.entry workClass source item, hclass, ?_⟩
        rw [pending, lookup_erase, if_neg hlowest, hitem]
      have houtranked : ¬queue.Outranked capacity item := by
        rintro ⟨-, hall⟩
        have hbelow := minimal _ _ (item.key_ne_opening workClass) hitem
        rw [lookup_insert, if_neg (Ne.symm hlowest)] at present
        have habove : (queue.entry workClass source item).rank < evicted.rank :=
          rank_lt_of_priority (hall lowest evicted notOpening present)
        exact absurd habove (not_lt.mpr hbelow)
      exact ⟨by simp [hnext, houtranked], fun houtranked' => absurd houtranked' houtranked⟩

/-- No item of a batch is left exactly when each is outranked by the work of the other classes. -/
theorem Cleared.refused_iff (hstart : start.Cleared workClass capacity) (source : Nat)
    (hfits : ∀ item ∈ work, item.fits workClass)
    (hsequence : start.nextSequence + work.length ≤ u128Max) :
    ¬(start.putAll workClass source capacity work).2.Holds workClass ↔
      ∀ item ∈ work, start.Outranked capacity item := by
  suffices hboth : (¬(start.putAll workClass source capacity work).2.Holds workClass ↔
        ∀ item ∈ work, start.Outranked capacity item) ∧
      ((∀ item ∈ work, start.Outranked capacity item) →
        (∀ key, (start.putAll workClass source capacity work).2.pending.lookup key =
          start.pending.lookup key) ∧
        (start.putAll workClass source capacity work).2.pending.keys.length =
          start.pending.keys.length) from hboth.1
  induction work using List.reverseRecOn with
  | nil =>
    refine ⟨iff_of_true ?_ (forall_mem_nil _), fun _ => ⟨fun _ => rfl, rfl⟩⟩
    rintro ⟨key, entry, hkey, hentry⟩
    cases (hstart.cleared key hkey).symm.trans hentry
  | append_singleton work item ih =>
    rw [length_append, length_singleton] at hsequence
    have hbefore := (forall_mem_append.mp hfits).1
    have hitem := hfits item mem_concat_self
    obtain ⟨hiff, hsame⟩ := ih hbefore (by omega)
    have hfed := hstart.putAll source hbefore (by omega)
    rw [putAll_snoc]
    generalize (start.putAll workClass source capacity work).2 = queue at hiff hsame hfed
    rw [forall_mem_append, forall_mem_singleton]
    by_cases hall : ∀ other ∈ work, start.Outranked capacity other
    case neg =>
      have hholds := hfed.holds_put hitem (not_not.mp (mt hiff.mp hall))
      exact ⟨by simp [hholds, hall], fun hall' => absurd hall'.1 hall⟩
    obtain ⟨hlookup, hlength⟩ := hsame hall
    obtain ⟨hrefuses, hkeeps⟩ := hfed.refuses_put hitem (hiff.mpr hall)
    have houtranked : queue.Outranked capacity item ↔ start.Outranked capacity item := by
      unfold Outranked
      simp only [hlookup, hlength]
    refine ⟨?_, fun hall' => ?_⟩
    · rw [hrefuses, houtranked]
      exact (and_iff_right hall).symm
    obtain ⟨hkept, hfull⟩ := hkeeps (houtranked.mpr hall'.2)
    exact ⟨fun key => (hkept key).trans (hlookup key), hfull.trans hall'.2.1.symm⟩

def above (pending : AList fun _ : WorkKey => PendingWork S) (priority : Nat) : Finset WorkKey :=
  (working pending).filter fun key => (pending.lookup key).any (priority < ·.priority)

theorem mem_above {pending : AList fun _ : WorkKey => PendingWork S} {priority : Nat}
    {key : WorkKey} : key ∈ above pending priority ↔
      key ≠ .opening ∧ ∃ entry, pending.lookup key = some entry ∧ priority < entry.priority := by
  simp only [above, mem_filter_working, decide_eq_true_eq]

/-- There is a place for every item of the batch, besides the work of higher priority than some
item, and no two items have one key. -/
def Roomy (start : WorkQueue S) (workClass : WorkClass) (capacity : Nat) (work : List Work) :
    Prop :=
  (work.map (·.key workClass)).Nodup ∧ ∀ item ∈ work,
    (above start.pending item.priority).card + work.length ≤ room start.pending capacity

theorem Roomy.of_snoc (h : start.Roomy workClass capacity (work ++ [item])) :
    start.Roomy workClass capacity work ∧ item.key workClass ∉ work.map (·.key workClass) := by
  obtain ⟨hnodup, hroom⟩ := h
  rw [map_append, map_singleton, nodup_append] at hnodup
  refine ⟨⟨hnodup.1, fun other hother => ?_⟩, fun hmem => ?_⟩
  · have hle := hroom other (mem_append_left _ hother)
    rw [length_append, length_singleton] at hle
    omega
  · exact hnodup.2.2 _ hmem _ (mem_singleton_self _) rfl

/-- No item of a roomy batch is removed. -/
theorem Cleared.live_of_roomy (hstart : start.Cleared workClass capacity)
    (hfits : ∀ item ∈ work, item.fits workClass)
    (hsequence : start.nextSequence + work.length ≤ u128Max)
    (hfresh : ∀ key entry, start.pending.lookup key = some entry → entry.cancellation ≠ source)
    (hlive : source ∉ start.states.cancelled) (hroomy : start.Roomy workClass capacity work) :
    source ∉ (start.putAll workClass source capacity work).2.states.cancelled := by
  induction work using List.reverseRecOn with
  | nil => exact hlive
  | append_singleton work item ih =>
    rw [length_append, length_singleton] at hsequence
    have hbefore := (forall_mem_append.mp hfits).1
    have hclass := Work.workClass_key (hfits item mem_concat_self)
    obtain ⟨hroomy', hkey⟩ := hroomy.of_snoc
    have hlive' := ih hbefore (by omega) hroomy'
    have hfed := hstart.putAll source hbefore (by omega)
    rw [putAll_snoc]
    generalize (start.putAll workClass source capacity work).2 = queue at hlive' hfed
    obtain ⟨henters, -⟩ := put_enters hfed.bounded workClass source item
    cases henters with
    | fits hroom pending cancelled =>
      rw [cancelled, not_or]
      refine ⟨hlive', ?_⟩
      rintro ⟨previous, hprevious, -⟩
      obtain ⟨-, -, other, hother, hsame, -⟩ := hfed.batch _ previous hclass hprevious
      exact hkey (mem_map.mpr ⟨other, hother, hsame⟩)
    | evicts absent full lowest evicted notOpening present minimal pending cancelled =>
      rw [cancelled, not_or]
      refine ⟨hlive', fun hsource => ?_⟩
      -- the evicted item would leave behind more than there is room for
      have hevicted : start.nextSequence ≤ evicted.sequence ∧
          ∃ other ∈ work ++ [item], evicted.priority = other.priority := by
        rcases of_lookup_insert present with ⟨-, rfl⟩ | ⟨-, present⟩
        · refine ⟨?_, item, mem_concat_self, rfl⟩
          show start.nextSequence ≤ queue.nextSequence
          rw [hfed.next]
          exact Nat.le_add_right ..
        · by_cases hlowest : lowest.workClass = some workClass
          · obtain ⟨-, hle, other, hother, -, hpriority⟩ :=
              hfed.batch lowest evicted hlowest present
            exact ⟨hle, other, mem_append_left _ hother, hpriority⟩
          · exact absurd hsource (hfresh lowest evicted (hfed.kept lowest evicted hlowest present))
      obtain ⟨hfirst, other, hother, hpriority⟩ := hevicted
      have hsubset : working (queue.inserted workClass source item) ⊆
          above start.pending other.priority ∪
            ((work ++ [item]).map (·.key workClass)).toFinset := by
        intro key hmem
        obtain ⟨hne, entry, hentry⟩ := mem_working.mp hmem
        rw [Finset.mem_union, mem_toFinset, mem_map]
        have hrank := minimal key entry hne hentry
        rcases of_lookup_insert hentry with ⟨rfl, -⟩ | ⟨-, hentry⟩
        · exact .inr ⟨item, mem_concat_self, rfl⟩
        · by_cases hkeyClass : key.workClass = some workClass
          · obtain ⟨-, -, found, hfound, hsame, -⟩ := hfed.batch key entry hkeyClass hentry
            exact .inr ⟨found, mem_append_left _ hfound, hsame⟩
          · have hstartEntry := hfed.kept key entry hkeyClass hentry
            have hlt := hstart.numbered key entry hstartEntry
            refine .inl (mem_above.mpr ⟨hne, entry, hstartEntry, ?_⟩)
            rw [← hpriority]
            exact priority_lt_of_rank hrank (Nat.lt_of_lt_of_le hlt hfirst)
      have hcard := hfed.card_working_inserted absent full
      have hle := (Finset.card_le_card hsubset).trans (Finset.card_union_le _ _)
      have hkeys := toFinset_card_le ((work ++ [item]).map (·.key workClass))
      have hroom := hroomy.2 other hother
      rw [length_map] at hkeys
      omega

/-- All items of the batch are left, and what has left of the other work ranked below all that is
left. -/
structure Intact (start queue : WorkQueue S) (workClass : WorkClass) (capacity : Nat)
    (work : List Work) : Prop where
  nodup : (work.map (·.key workClass)).Nodup
  present : ∀ item ∈ work, ∃ entry, queue.pending.lookup (item.key workClass) = some entry ∧
    entry.priority = item.priority
  below : (∀ key entry, start.pending.lookup key = some entry →
      queue.pending.lookup key = some entry) ∨
    queue.pending.keys.length = capacity ∧ ∀ key entry, start.pending.lookup key = some entry →
      queue.pending.lookup key = some entry ∨ ∀ other found, other ≠ .opening →
        queue.pending.lookup other = some found → entry.rank < found.rank

theorem Fed.intact_put (hstart : start.Cleared workClass capacity)
    (h : start.Fed workClass source capacity work queue)
    (hfits : ∀ other ∈ work ++ [item], other.fits workClass)
    (hintact : start.Intact queue workClass capacity work)
    (hlive : source ∉ (queue.put workClass source capacity item).2.states.cancelled) :
    start.Intact (queue.put workClass source capacity item).2 workClass capacity
      (work ++ [item]) := by
  obtain ⟨henters, -⟩ := put_enters h.bounded workClass source item
  generalize (queue.put workClass source capacity item).2 = next at henters hlive ⊢
  have hclass := Work.workClass_key (hfits item mem_concat_self)
  have habsent : queue.pending.lookup (item.key workClass) = none := by
    cases henters with
    | fits hroom pending cancelled =>
      refine Option.eq_none_iff_forall_ne_some.mpr fun previous hprevious => ?_
      refine hlive ((cancelled source).mpr (.inr ⟨previous, hprevious, ?_⟩))
      exact (h.batch _ previous hclass hprevious).1
    | evicts absent => exact absent
  have hnew : ∀ other ∈ work, other.key workClass ≠ item.key workClass := by
    intro other hother heq
    obtain ⟨entry, hentry, -⟩ := hintact.present other hother
    cases (heq ▸ hentry).symm.trans habsent
  have hother : ∀ key entry, start.pending.lookup key = some entry → key ≠ item.key workClass := by
    rintro key entry hentry rfl
    cases (hstart.cleared _ hclass).symm.trans hentry
  have hnodup : ((work ++ [item]).map (·.key workClass)).Nodup := by
    rw [map_append, map_singleton, nodup_append]
    refine ⟨hintact.nodup, nodup_singleton _, ?_⟩
    intro key hmem key' hmem'
    obtain ⟨other, hwork, rfl⟩ := mem_map.mp hmem
    rw [mem_singleton.mp hmem']
    exact hnew other hwork
  cases henters with
  | fits hroom pending cancelled =>
    have hlength := length_keys_insert_of_lookup habsent (queue.entry workClass source item)
    refine ⟨hnodup, ?_, .inl ?_⟩
    · intro other hmem
      rcases mem_append.mp hmem with hmem | hmem
      · obtain ⟨entry, hentry, hpriority⟩ := hintact.present other hmem
        refine ⟨entry, ?_, hpriority⟩
        rw [pending, lookup_insert, if_neg (hnew other hmem), hentry]
      · obtain rfl := mem_singleton.mp hmem
        refine ⟨queue.entry workClass source other, ?_, rfl⟩
        rw [pending, lookup_insert, if_pos rfl]
    · intro key entry hentry
      rw [pending, lookup_insert, if_neg (hother key entry hentry)]
      rcases hintact.below with hall | ⟨hfull, -⟩
      · exact hall key entry hentry
      · omega
  | evicts absent full lowest evicted notOpening present minimal pending cancelled =>
    have hlowest : lowest.workClass ≠ some workClass := by
      intro hlowest
      refine hlive ((cancelled source).mpr (.inr ?_))
      rcases of_lookup_insert present with ⟨-, rfl⟩ | ⟨-, present⟩
      · rfl
      · exact (h.batch lowest evicted hlowest present).1
    have hpresent : queue.pending.lookup lowest = some evicted := by
      rw [lookup_insert, if_neg (by rintro rfl; exact hlowest hclass)] at present
      exact present
    have hlookup : ∀ key, next.pending.lookup key = if key = lowest then none else
        if key = item.key workClass then some (queue.entry workClass source item)
        else queue.pending.lookup key := by
      intro key
      rw [pending, lookup_erase, lookup_insert]
    have hmin : ∀ other found, other ≠ .opening → next.pending.lookup other = some found →
        evicted.rank < found.rank := by
      intro other found hne hfound
      rw [hlookup] at hfound
      split at hfound
      · cases hfound
      rename_i hother'
      have hle := minimal other found hne ((lookup_insert ..).trans hfound)
      refine lt_of_le_of_ne hle fun heq => ?_
      have hsequence : evicted.sequence = found.sequence :=
        congrArg (fun rank => (ofLex rank).2) heq
      split at hfound
      · cases hfound
        exact absurd hsequence (Nat.ne_of_lt (h.numbered lowest evicted hpresent))
      · exact hother' (h.distinct lowest evicted other found hpresent hfound hsequence).symm
    have hlength : next.pending.keys.length = capacity := by
      have hinsert := length_keys_insert_of_lookup absent (queue.entry workClass source item)
      have hmem := AList.mem_keys.mp (mem_of_lookup present)
      rw [pending, AList.keys_erase, length_erase_of_mem hmem]
      omega
    refine ⟨hnodup, ?_, .inr ⟨hlength, fun key entry hentry => ?_⟩⟩
    · intro other hmem
      have hkey : other.key workClass ≠ lowest := by
        rintro rfl
        exact hlowest (Work.workClass_key (hfits other hmem))
      rcases mem_append.mp hmem with hmem | hmem
      · obtain ⟨entry, hentry, hpriority⟩ := hintact.present other hmem
        refine ⟨entry, ?_, hpriority⟩
        rw [hlookup, if_neg hkey, if_neg (hnew other hmem), hentry]
      · obtain rfl := mem_singleton.mp hmem
        refine ⟨queue.entry workClass source other, ?_, rfl⟩
        rw [hlookup, if_neg hkey, if_pos rfl]
    · by_cases hkey : key = lowest
      · subst hkey
        have heq := h.kept key evicted hlowest hpresent
        cases heq.symm.trans hentry
        exact .inr hmin
      · have hleft : queue.pending.lookup key = some entry ∨ entry.rank < evicted.rank := by
          rcases hintact.below with hall | ⟨-, hbelow⟩
          · exact .inl (hall key entry hentry)
          · exact (hbelow key entry hentry).imp_right fun hrank =>
              hrank lowest evicted notOpening hpresent
        rcases hleft with hleft | hrank
        · refine .inl ?_
          rw [hlookup, if_neg hkey, if_neg (hother key entry hentry), hleft]
        · exact .inr fun other found hne hfound => hrank.trans (hmin other found hne hfound)

/-- The source of a batch stays live exactly when the batch is roomy. -/
theorem Cleared.live_iff (hstart : start.Cleared workClass capacity)
    (hfits : ∀ item ∈ work, item.fits workClass)
    (hsequence : start.nextSequence + work.length ≤ u128Max)
    (hfresh : ∀ key entry, start.pending.lookup key = some entry → entry.cancellation ≠ source)
    (hlive : source ∉ start.states.cancelled) :
    source ∉ (start.putAll workClass source capacity work).2.states.cancelled ↔
      start.Roomy workClass capacity work := by
  refine ⟨fun hleft => ?_, hstart.live_of_roomy hfits hsequence hfresh hlive⟩
  have hintact : start.Intact (start.putAll workClass source capacity work).2 workClass capacity
      work := by
    induction work using List.reverseRecOn with
    | nil => exact ⟨nodup_nil, forall_mem_nil _, .inl fun _ _ => id⟩
    | append_singleton work item ih =>
      rw [length_append, length_singleton] at hsequence
      have hbefore := (forall_mem_append.mp hfits).1
      have hfed := hstart.putAll source hbefore (by omega)
      rw [putAll_snoc] at hleft ⊢
      refine hfed.intact_put hstart hfits (ih hbefore (by omega) fun hmem => hleft ?_) hleft
      obtain ⟨henters, -⟩ := put_enters hfed.bounded workClass source item
      cases henters with
      | fits hroom pending cancelled => exact (cancelled source).mpr (.inl hmem)
      | evicts absent full lowest evicted notOpening present minimal pending cancelled =>
        exact (cancelled source).mpr (.inl hmem)
  have hfed := hstart.putAll source hfits hsequence
  generalize (start.putAll workClass source capacity work).2 = queue at hintact hfed
  refine ⟨hintact.nodup, fun item hitem => ?_⟩
  have hdisjoint : Disjoint (above start.pending item.priority)
      (work.map (·.key workClass)).toFinset := by
    refine Finset.disjoint_left.mpr fun key habove hbatch => ?_
    obtain ⟨-, entry, hentry, -⟩ := mem_above.mp habove
    obtain ⟨other, hother, rfl⟩ := mem_map.mp (mem_toFinset.mp hbatch)
    cases (hstart.cleared _ (Work.workClass_key (hfits other hother))).symm.trans hentry
  have hsubset : above start.pending item.priority ∪ (work.map (·.key workClass)).toFinset ⊆
      working queue.pending := by
    refine Finset.union_subset (fun key habove => ?_) fun key hbatch => ?_
    · obtain ⟨hne, entry, hentry, hpriority⟩ := mem_above.mp habove
      refine mem_working.mpr ⟨hne, entry, ?_⟩
      rcases hintact.below with hall | ⟨-, hbelow⟩
      · exact hall key entry hentry
      · refine (hbelow key entry hentry).resolve_right fun hrank => ?_
        obtain ⟨found, hfound, heq⟩ := hintact.present item hitem
        have hle := priority_le_of_rank
          (le_of_lt (hrank _ found (item.key_ne_opening workClass) hfound))
        omega
    · obtain ⟨other, hother, rfl⟩ := mem_map.mp (mem_toFinset.mp hbatch)
      obtain ⟨entry, hentry, -⟩ := hintact.present other hother
      exact mem_working.mpr ⟨other.key_ne_opening workClass, entry, hentry⟩
  have hcard := (Finset.card_le_card hsubset).trans hfed.card_working_le
  rw [Finset.card_union_of_disjoint hdisjoint, toFinset_card_of_nodup hintact.nodup,
    length_map] at hcard
  exact hcard

end KeyReader.Runtime.WorkQueue
