import KeyReader.Runtime.WorkQueue
import Mathlib.Data.Finset.Card

/-! What one item of a batch does to the pending work of a document, and which work a whole batch
displaces. -/

namespace KeyReader.Runtime

open Table

def WorkKey.workClass : WorkKey → Option WorkClass
  | .opening => none
  | .render _ => some .renderViewport
  | .text workClass _ => some workClass
  | .preview => some .preview

theorem Work.workClass_key {work : Work} {workClass : WorkClass} (h : work.fits workClass) :
    (work.key workClass).workClass = some workClass := by
  cases work with
  | render demand => exact congrArg some (of_decide_eq_true h).symm
  | text demand => rfl
  | preview demand => exact congrArg some (of_decide_eq_true h).symm

namespace WorkQueue

variable {S : Type}

section

variable (pending : AList fun _ : WorkKey => PendingWork S)

def working : Finset WorkKey :=
  pending.keys.toFinset.erase .opening

/-- The places that the opening of the document leaves to the work. -/
def room (capacity : Nat) : Nat :=
  capacity - if .opening ∈ pending then 1 else 0

end

variable {pending : AList fun _ : WorkKey => PendingWork S}

theorem mem_working {key : WorkKey} :
    key ∈ working pending ↔ key ≠ .opening ∧ ∃ entry, pending.lookup key = some entry := by
  rw [working, Finset.mem_erase, List.mem_toFinset, ← AList.mem_keys, ← AList.lookup_isSome,
    Option.isSome_iff_exists]

theorem card_working (pending : AList fun _ : WorkKey => PendingWork S) :
    (working pending).card + (if .opening ∈ pending then 1 else 0) = pending.keys.length := by
  have hcard : pending.keys.toFinset.card = pending.keys.length :=
    List.toFinset_card_of_nodup pending.keys_nodup
  unfold working
  split
  · rename_i hopening
    have hmem : WorkKey.opening ∈ pending.keys.toFinset := List.mem_toFinset.mpr hopening
    rw [Finset.card_erase_of_mem hmem, hcard]
    have hpos := Finset.card_pos.mpr ⟨_, hmem⟩
    omega
  · rename_i hopening
    have hmem : WorkKey.opening ∉ pending.keys.toFinset := fun hmem =>
      hopening (AList.mem_keys.mpr (List.mem_toFinset.mp hmem))
    rw [Finset.erase_eq_of_notMem hmem, hcard, Nat.add_zero]

variable {capacity : Nat}

theorem card_working_le
    (h : pending.keys.length ≤ capacity) : (working pending).card ≤ room pending capacity := by
  have hcard := card_working pending
  unfold room
  omega

theorem card_working_of_full (h : pending.keys.length = capacity + 1)
    (hopening : .opening ∈ pending → 0 < capacity) :
    (working pending).card = room pending capacity + 1 := by
  have hcard := card_working pending
  unfold room
  split at hcard
  · rename_i hmem
    have hpos := hopening hmem
    rw [if_pos hmem]
    omega
  · rename_i hmem
    rw [if_neg hmem]
    omega

inductive Enters (queue : WorkQueue S) (capacity : Nat) (key : WorkKey) (entry : PendingWork S)
    (next : WorkQueue S) : Prop
  | fits (room : (queue.pending.insert key entry).keys.length ≤ capacity)
      (pending : next.pending = queue.pending.insert key entry)
      (cancelled : ∀ source, source ∈ next.states.cancelled ↔ source ∈ queue.states.cancelled ∨
        ∃ previous, queue.pending.lookup key = some previous ∧ previous.cancellation = source)
  | evicts (absent : queue.pending.lookup key = none) (full : queue.pending.keys.length = capacity)
      (lowest : WorkKey) (evicted : PendingWork S) (work : lowest ≠ .opening)
      (present : (queue.pending.insert key entry).lookup lowest = some evicted)
      (minimal : ∀ other found, other ≠ .opening →
        (queue.pending.insert key entry).lookup other = some found → evicted.rank ≤ found.rank)
      (pending : next.pending = (queue.pending.insert key entry).erase lowest)
      (cancelled : ∀ source, source ∈ next.states.cancelled ↔
        source ∈ queue.states.cancelled ∨ evicted.cancellation = source)

/-- The entry that an item becomes. -/
def entry (queue : WorkQueue S) (workClass : WorkClass) (cancellation : Nat) (work : Work) :
    PendingWork S :=
  { sequence := queue.nextSequence, priority := work.priority, workClass := some workClass
    cancellation, kind := .engine work }

abbrev inserted (queue : WorkQueue S) (workClass : WorkClass) (cancellation : Nat) (work : Work) :
    AList fun _ : WorkKey => PendingWork S :=
  queue.pending.insert (work.key workClass) (queue.entry workClass cancellation work)

theorem evict_of_le {queue : WorkQueue S} (h : queue.pending.keys.length ≤ capacity) (turns : Nat) :
    queue.evict capacity turns = (0, queue) := by
  cases turns with
  | zero => rfl
  | succ turns => rw [evict, if_pos h]

theorem length_keys_insert_of_lookup {key : WorkKey} (h : pending.lookup key = none)
    (entry : PendingWork S) :
    (pending.insert key entry).keys.length = pending.keys.length + 1 := by
  rw [AList.keys_insert, List.length_cons, List.erase_of_not_mem]
  exact fun hmem => AList.lookup_eq_none.mp h (AList.mem_keys.mpr hmem)

theorem length_inserted {queue : WorkQueue S} {workClass : WorkClass} {work : Work}
    (h : queue.pending.lookup (work.key workClass) = none) (cancellation : Nat) :
    (queue.inserted workClass cancellation work).keys.length = queue.pending.keys.length + 1 :=
  length_keys_insert_of_lookup h _

/-- One item of a batch enters the pending work. -/
theorem put_enters {queue : WorkQueue S} (hbounded : queue.pending.keys.length ≤ capacity)
    (workClass : WorkClass) (cancellation : Nat)
    (work : Work) : queue.Enters capacity (work.key workClass)
        (queue.entry workClass cancellation work)
        (queue.put workClass cancellation capacity work).2 ∧
      (queue.put workClass cancellation capacity work).2.nextSequence =
        (queue.insertWork workClass cancellation work).2.nextSequence := by
  have hkey := work.key_ne_opening workClass
  have hlength := length_keys_insert_le queue.pending (work.key workClass)
    (queue.entry workClass cancellation work)
  cases hprevious : queue.pending.lookup (work.key workClass) with
  | some previous =>
    have hsame := length_keys_insert (queue.entry workClass cancellation work)
      (mem_of_lookup hprevious)
    have hroom := hsame.le.trans hbounded
    have hput : queue.put workClass cancellation capacity work =
        (0, (queue.insertWork workClass cancellation work).2.cancelSource
          previous.cancellation) := by
      unfold put insertWork allocateSequence
      dsimp only
      rw [hprevious]
      exact evict_of_le hroom _
    rw [hput]
    refine ⟨.fits hroom rfl fun source => ?_, rfl⟩
    rw [hprevious]
    refine Cancellations.mem_cancel.trans ?_
    constructor
    · rintro (rfl | hmem)
      · exact .inr ⟨previous, rfl, rfl⟩
      · exact .inl hmem
    · rintro (hmem | ⟨other, heq, rfl⟩)
      · exact .inr hmem
      · exact .inl (congrArg _ (Option.some.inj heq).symm)
  | none =>
    have hinsert := length_inserted hprevious cancellation
    have hput : queue.put workClass cancellation capacity work =
        (queue.insertWork workClass cancellation work).2.evict capacity
          (queue.pending.keys.length + 1) := by
      unfold put
      rw [← hinsert]
      unfold insertWork allocateSequence
      dsimp only
      rw [hprevious]
      rfl
    rw [hput]
    by_cases hroom : (queue.inserted workClass cancellation work).keys.length ≤ capacity
    case pos =>
      rw [evict_of_le hroom]
      exact ⟨.fits hroom rfl fun source => by simp [hprevious]; rfl, rfl⟩
    have hfull : queue.pending.keys.length = capacity := by omega
    have hpresent : (queue.inserted workClass cancellation work).lookup (work.key workClass) =
          some (queue.entry workClass cancellation work) :=
      (lookup_insert ..).trans (if_pos rfl)
    cases hlowest : Table.lowest (· ≠ .opening) PendingWork.rank
        (queue.inserted workClass cancellation work) with
    | none =>
      have habsent := lowest_eq_none.mp hlowest _ _ hpresent
      exact absurd (decide_eq_true hkey) habsent
    | some lowest =>
      obtain ⟨evicted, hevicted, hne, hminimal⟩ := lowest_eq_some hlowest
      have hevict : (queue.insertWork workClass cancellation work).2.evict capacity
            (queue.pending.keys.length + 1) =
          (1, { (queue.insertWork workClass cancellation work).2 with
            pending := (queue.inserted workClass cancellation work).erase lowest
            states := queue.states.cancel evicted.cancellation }) := by
        rw [evict, if_neg (by exact hroom)]
        have hlowest' : Table.lowest (· ≠ .opening) PendingWork.rank
            (queue.insertWork workClass cancellation work).2.pending = some lowest := hlowest
        have hevicted' : (queue.insertWork workClass cancellation work).2.pending.lookup lowest =
            some evicted := hevicted
        rw [hlowest']
        dsimp only
        rw [hevicted']
        dsimp only
        rw [evict_of_le]
        · rfl
        · show ((queue.inserted workClass cancellation work).erase lowest).keys.length ≤ capacity
          have hmem := AList.mem_keys.mp (mem_of_lookup hevicted)
          rw [AList.keys_erase, List.length_erase_of_mem hmem]
          omega
      rw [hevict]
      refine ⟨.evicts hprevious hfull lowest evicted (of_decide_eq_true hne) hevicted
        (fun other found hother hfound => hminimal other found hfound (decide_eq_true hother))
        rfl fun source => ?_, rfl⟩
      rw [Cancellations.mem_cancel, or_comm, eq_comm]

end WorkQueue

end KeyReader.Runtime

/-! Which pending work a batch displaces, and when it is the batch itself. -/

namespace KeyReader.Runtime.WorkQueue

open List Table

variable {S : Type}

structure Cleared (queue : WorkQueue S) (workClass : WorkClass) (capacity : Nat) : Prop where
  bounded : queue.pending.keys.length ≤ capacity
  numbered : ∀ key entry, queue.pending.lookup key = some entry →
    entry.sequence < queue.nextSequence
  distinct : ∀ key entry key' entry', queue.pending.lookup key = some entry →
    queue.pending.lookup key' = some entry' → entry.sequence = entry'.sequence → key = key'
  cleared : ∀ key, key.workClass = some workClass → queue.pending.lookup key = none

/-- What holds once some items of a batch have entered. -/
structure Fed (start : WorkQueue S) (workClass : WorkClass) (source capacity : Nat)
    (work : List Work) (queue : WorkQueue S) : Prop where
  bounded : queue.pending.keys.length ≤ capacity
  next : queue.nextSequence = start.nextSequence + work.length
  numbered : ∀ key entry, queue.pending.lookup key = some entry →
    entry.sequence < queue.nextSequence
  distinct : ∀ key entry key' entry', queue.pending.lookup key = some entry →
    queue.pending.lookup key' = some entry' → entry.sequence = entry'.sequence → key = key'
  opening : queue.pending.lookup .opening = start.pending.lookup .opening
  kept : ∀ key entry, key.workClass ≠ some workClass → queue.pending.lookup key = some entry →
    start.pending.lookup key = some entry
  batch : ∀ key entry, key.workClass = some workClass → queue.pending.lookup key = some entry →
    entry.cancellation = source ∧ start.nextSequence ≤ entry.sequence ∧
      ∃ item ∈ work, item.key workClass = key ∧ entry.priority = item.priority
  classed : ∀ key entry, key.workClass = some workClass →
    queue.pending.lookup key = some entry → entry.workClass = some workClass
  cancelled : ∀ other, other ≠ source → (other ∈ queue.states.cancelled ↔
    other ∈ start.states.cancelled ∨ ∃ key entry, start.pending.lookup key = some entry ∧
      queue.pending.lookup key = none ∧ entry.cancellation = other)

theorem Cleared.fed {start : WorkQueue S} {workClass : WorkClass} {capacity : Nat}
    (h : start.Cleared workClass capacity) (source : Nat) :
    start.Fed workClass source capacity [] start where
  bounded := h.bounded
  next := rfl
  numbered := h.numbered
  distinct := h.distinct
  opening := rfl
  kept := fun _ _ _ hentry => hentry
  batch := fun key entry hclass hentry => by cases (h.cleared key hclass).symm.trans hentry
  classed := fun key entry hclass hentry => by cases (h.cleared key hclass).symm.trans hentry
  cancelled := by
    intro other _
    refine ⟨.inl, fun hother => hother.resolve_right ?_⟩
    rintro ⟨key, entry, hentry, hnone, -⟩
    cases hnone.symm.trans hentry

variable {entry : PendingWork S}

theorem Enters.lookup {queue next : WorkQueue S} {capacity : Nat} {key other : WorkKey}
    {found : PendingWork S} (h : queue.Enters capacity key entry next)
    (hfound : next.pending.lookup other = some found) :
    (other = key ∧ found = entry) ∨ (other ≠ key ∧ queue.pending.lookup other = some found) := by
  have hinsert : (queue.pending.insert key entry).lookup other = some found := by
    cases h with
    | fits room pending cancelled => rw [← pending, hfound]
    | evicts absent full lowest evicted work present minimal pending cancelled =>
      exact (of_lookup_erase (pending ▸ hfound)).2
  exact (of_lookup_insert hinsert).imp_left fun heq => ⟨heq.1, heq.2.symm⟩

theorem Enters.bounded {queue next : WorkQueue S} {capacity : Nat} {key : WorkKey}
    (h : queue.Enters capacity key entry next) : next.pending.keys.length ≤ capacity := by
  cases h with
  | fits room pending cancelled => rwa [pending]
  | evicts absent full lowest evicted work present minimal pending cancelled =>
    have hlength := length_keys_insert_of_lookup absent entry
    have hmem := AList.mem_keys.mp (mem_of_lookup present)
    rw [pending, AList.keys_erase, length_erase_of_mem hmem]
    omega

section feeding

variable {start queue : WorkQueue S} {workClass : WorkClass} {source capacity : Nat}
  {work : List Work} {item : Work}

theorem insertWork_nextSequence (h : queue.nextSequence < u128Max) :
    (queue.insertWork workClass source item).2.nextSequence = queue.nextSequence + 1 :=
  if_neg (Nat.ne_of_lt h)

theorem Fed.opening_inserted (h : start.Fed workClass source capacity work queue) (item : Work) :
    (queue.inserted workClass source item).lookup .opening = start.pending.lookup .opening := by
  rw [lookup_insert, if_neg (item.key_ne_opening workClass).symm, h.opening]

/-- One more item enters. -/
theorem Fed.put (hstart : start.Cleared workClass capacity)
    (h : start.Fed workClass source capacity work queue) (hfits : item.fits workClass)
    (hsequence : start.nextSequence + work.length < u128Max) :
    start.Fed workClass source capacity (work ++ [item])
      (queue.put workClass source capacity item).2 := by
  obtain ⟨henters, hnext⟩ := put_enters h.bounded workClass source item
  generalize (queue.put workClass source capacity item).2 = next at henters hnext
  rw [insertWork_nextSequence (by rw [h.next]; exact hsequence)] at hnext
  have hclass := Work.workClass_key hfits
  have hlength : (work ++ [item]).length = work.length + 1 := by simp
  have hbatch : ∀ key entry, key.workClass = some workClass →
      next.pending.lookup key = some entry → entry.cancellation = source ∧
        start.nextSequence ≤ entry.sequence ∧
        ∃ other ∈ work ++ [item], other.key workClass = key ∧ entry.priority = other.priority := by
    intro key entry hkey hentry
    rcases henters.lookup hentry with ⟨rfl, rfl⟩ | ⟨-, hentry⟩
    · refine ⟨rfl, ?_, item, mem_concat_self, rfl, rfl⟩
      show start.nextSequence ≤ queue.nextSequence
      rw [h.next]
      exact Nat.le_add_right ..
    · obtain ⟨hsource, hle, other, hother, hrest⟩ := h.batch key entry hkey hentry
      exact ⟨hsource, hle, other, mem_append_left _ hother, hrest⟩
  refine {
    bounded := henters.bounded
    next := by rw [hnext, h.next, hlength, Nat.add_assoc]
    numbered := ?_
    distinct := ?_
    opening := ?_
    kept := ?_
    batch := hbatch
    classed := ?_
    cancelled := ?_ }
  · intro key entry hentry
    rw [hnext]
    rcases henters.lookup hentry with ⟨-, rfl⟩ | ⟨-, hentry⟩
    · exact Nat.lt_succ_self _
    · exact Nat.lt_succ_of_lt (h.numbered key entry hentry)
  · intro key entry key' entry' hentry hentry' heq
    rcases henters.lookup hentry with ⟨rfl, rfl⟩ | ⟨-, hentry⟩ <;>
      rcases henters.lookup hentry' with ⟨rfl, rfl⟩ | ⟨-, hentry'⟩
    · rfl
    · exact absurd heq.symm (Nat.ne_of_lt (h.numbered key' entry' hentry'))
    · exact absurd heq (Nat.ne_of_lt (h.numbered key entry hentry))
    · exact h.distinct key entry key' entry' hentry hentry' heq
  · have hinsert := h.opening_inserted item
    cases henters with
    | fits room pending cancelled => rw [pending, hinsert]
    | evicts absent full lowest evicted notOpening present minimal pending cancelled =>
      rw [pending, lookup_erase, if_neg (Ne.symm notOpening), hinsert]
  · intro key entry hkey hentry
    rcases henters.lookup hentry with ⟨rfl, -⟩ | ⟨-, hentry⟩
    · exact absurd hclass hkey
    · exact h.kept key entry hkey hentry
  · intro key entry hkey hentry
    rcases henters.lookup hentry with ⟨-, rfl⟩ | ⟨-, hentry⟩
    · rfl
    · exact h.classed key entry hkey hentry
  · intro other hother
    have hkey : ∀ entry, queue.pending.lookup (item.key workClass) = some entry →
        entry.cancellation = source := fun entry hentry => (h.batch _ entry hclass hentry).1
    cases henters with
    | fits room pending cancelled =>
      rw [cancelled, h.cancelled other hother]
      constructor
      · rintro (hcancelled | ⟨entry, hentry, rfl⟩)
        · refine hcancelled.imp_right ?_
          rintro ⟨key, entry, hentry, hnone, rfl⟩
          refine ⟨key, entry, hentry, ?_, rfl⟩
          rw [pending, lookup_insert, if_neg, hnone]
          rintro rfl
          cases (hstart.cleared _ hclass).symm.trans hentry
        · exact absurd (hkey entry hentry) hother
      · rintro (hcancelled | ⟨key, entry, hentry, hnone, rfl⟩)
        · exact .inl (.inl hcancelled)
        · rw [pending, lookup_insert] at hnone
          split at hnone
          · cases hnone
          · exact .inl (.inr ⟨key, entry, hentry, hnone, rfl⟩)
    | evicts absent full lowest evicted notOpening present minimal pending cancelled =>
      have hnone : ∀ key, next.pending.lookup key = none ↔ key = lowest ∨
          (key ≠ item.key workClass ∧ queue.pending.lookup key = none) := by
        intro key
        rw [pending, lookup_erase, lookup_insert]
        by_cases hlowest : key = lowest <;> by_cases hitem : key = item.key workClass <;>
          simp [hlowest, hitem]
      -- an item of the batch leaves, or the work of another class
      have hleaves : (lowest.workClass = some workClass ∧ evicted.cancellation = source) ∨
          start.pending.lookup lowest = some evicted := by
        rcases of_lookup_insert present with ⟨rfl, rfl⟩ | ⟨-, present⟩
        · exact .inl ⟨hclass, rfl⟩
        · by_cases hlowest : lowest.workClass = some workClass
          · exact .inl ⟨hlowest, (h.batch lowest evicted hlowest present).1⟩
          · exact .inr (h.kept lowest evicted hlowest present)
      rw [cancelled, h.cancelled other hother]
      constructor
      · rintro ((hcancelled | ⟨key, entry, hentry, hkey, rfl⟩) | rfl)
        · exact .inl hcancelled
        · refine .inr ⟨key, entry, hentry, (hnone key).mpr (.inr ⟨?_, hkey⟩), rfl⟩
          rintro rfl
          cases (hstart.cleared _ hclass).symm.trans hentry
        · have hpresent := hleaves.resolve_left fun hsource => hother hsource.2
          exact .inr ⟨lowest, evicted, hpresent, (hnone lowest).mpr (.inl rfl), rfl⟩
      · rintro (hcancelled | ⟨key, entry, hentry, hkey, rfl⟩)
        · exact .inl (.inl hcancelled)
        · rcases (hnone key).mp hkey with rfl | ⟨-, hkey⟩
          · rcases hleaves with ⟨hlowest, -⟩ | hpresent
            · cases (hstart.cleared _ hlowest).symm.trans hentry
            · cases hpresent.symm.trans hentry
              exact .inr rfl
          · exact .inl (.inr ⟨key, entry, hentry, hkey, rfl⟩)

theorem putAll_snoc (queue : WorkQueue S) (work : List Work) (item : Work) :
    (queue.putAll workClass source capacity (work ++ [item])).2 =
      ((queue.putAll workClass source capacity work).2.put workClass source capacity item).2 := by
  unfold putAll
  rw [foldl_append]
  rfl

theorem Cleared.putAll (hstart : start.Cleared workClass capacity) (source : Nat)
    (hfits : ∀ item ∈ work, item.fits workClass)
    (hsequence : start.nextSequence + work.length ≤ u128Max) :
    start.Fed workClass source capacity work
      (start.putAll workClass source capacity work).2 := by
  induction work using List.reverseRecOn with
  | nil => exact hstart.fed source
  | append_singleton work item ih =>
    rw [length_append, length_singleton] at hsequence
    rw [putAll_snoc]
    refine (ih (forall_mem_append.mp hfits).1 ?_).put hstart
      (hfits item mem_concat_self) ?_ <;> omega

theorem room_congr {pending other : AList fun _ : WorkKey => PendingWork S}
    (h : pending.lookup .opening = other.lookup .opening) (capacity : Nat) :
    room pending capacity = room other capacity := by
  have hmem : WorkKey.opening ∈ pending ↔ WorkKey.opening ∈ other := by
    rw [← AList.lookup_isSome, ← AList.lookup_isSome, h]
  unfold room
  simp only [hmem]

section

variable (h : start.Fed workClass source capacity work queue)

include h

theorem Fed.card_working_le : (working queue.pending).card ≤ room start.pending capacity :=
  room_congr h.opening capacity ▸ WorkQueue.card_working_le h.bounded

theorem Fed.card_working_inserted (habsent : queue.pending.lookup (item.key workClass) = none)
    (hfull : queue.pending.keys.length = capacity) :
    (working (queue.inserted workClass source item)).card = room start.pending capacity + 1 := by
  have hopening := h.opening_inserted item
  have hlength := length_inserted habsent source
  rw [card_working_of_full (by rw [hlength, hfull]), room_congr hopening]
  intro hmem
  rw [← AList.lookup_isSome, hopening, ← h.opening, AList.lookup_isSome] at hmem
  have hpos := length_pos_of_mem (AList.mem_keys.mp hmem)
  omega

end

section

variable (pending : AList fun _ : WorkKey => PendingWork S)

def outranking (rank : Lex (Nat × Nat)) :
    Finset WorkKey :=
  (working pending).filter fun key => (pending.lookup key).any (rank ≤ ·.rank)

theorem outranking_subset (rank : Lex (Nat × Nat)) : outranking pending rank ⊆ working pending :=
  Finset.filter_subset _ _

end

variable {key : WorkKey}

theorem mem_filter_working {pending : AList fun _ : WorkKey => PendingWork S}
    {p : PendingWork S → Bool} :
    key ∈ (working pending).filter (fun key => (pending.lookup key).any p) ↔
      key ≠ .opening ∧ ∃ entry, pending.lookup key = some entry ∧ p entry := by
  rw [Finset.mem_filter, mem_working, Option.any_eq_true]
  constructor
  · rintro ⟨⟨hne, -⟩, entry, hentry, hp⟩
    exact ⟨hne, entry, hentry, hp⟩
  · rintro ⟨hne, entry, hentry, hp⟩
    exact ⟨⟨hne, entry, hentry⟩, entry, hentry, hp⟩

theorem mem_outranking {pending : AList fun _ : WorkKey => PendingWork S} {rank : Lex (Nat × Nat)} : key ∈ outranking pending rank ↔
      key ≠ .opening ∧ ∃ entry, pending.lookup key = some entry ∧ rank ≤ entry.rank := by
  simp only [outranking, mem_filter_working, decide_eq_true_eq]

/-- The pending work once a batch has entered, if there were room for all of it. -/
def pile (queue : WorkQueue S) (workClass : WorkClass) (source : Nat) (work : List Work) :
    WorkQueue S :=
  work.foldl (fun queue item => (queue.insertWork workClass source item).2) queue

/-- While a batch enters, there are too many entries of the rank of this one and above. -/
def Displaced (start : WorkQueue S) (workClass : WorkClass) (source capacity : Nat)
    (work : List Work) (entry : PendingWork S) : Prop :=
  ∃ items ∈ work.inits, room start.pending capacity <
    (outranking (start.pile workClass source items).pending entry.rank).card

theorem displaced_snoc : start.Displaced workClass source capacity (work ++ [item]) entry ↔
      room start.pending capacity <
          (outranking (start.pile workClass source (work ++ [item])).pending entry.rank).card ∨
        start.Displaced workClass source capacity work entry := by
  unfold Displaced
  simp only [mem_inits, prefix_concat_iff, or_and_right, exists_or, exists_eq_left]

/-- The entry stays and nothing of its rank and above has left, or it has left. -/
def Tracked (start queue : WorkQueue S) (workClass : WorkClass) (source capacity : Nat)
    (work : List Work) (key : WorkKey) (entry : PendingWork S) : Prop :=
  (queue.pending.lookup key = some entry ∧ ¬start.Displaced workClass source capacity work entry ∧
      ∀ other found, entry.rank ≤ found.rank → (queue.pending.lookup other = some found ↔
        (start.pile workClass source work).pending.lookup other = some found)) ∨
    (queue.pending.lookup key = none ∧ start.Displaced workClass source capacity work entry)

theorem pile_snoc (queue : WorkQueue S) (work : List Work) (item : Work) :
    queue.pile workClass source (work ++ [item]) =
      ((queue.pile workClass source work).insertWork workClass source item).2 := by
  unfold pile
  rw [foldl_append]
  rfl

theorem nextSequence_pile (hsequence : start.nextSequence + work.length ≤ u128Max) :
    (start.pile workClass source work).nextSequence = start.nextSequence + work.length := by
  induction work using List.reverseRecOn with
  | nil => rfl
  | append_singleton work item ih =>
    rw [length_append, length_singleton] at hsequence ⊢
    rw [pile_snoc, insertWork_nextSequence, ih (by omega)]
    · rw [Nat.add_assoc]
    · rw [ih (by omega)]
      omega

theorem Fed.tracked_put (hstart : start.Cleared workClass capacity)
    (h : start.Fed workClass source capacity work queue) (hfits : item.fits workClass)
    (hsequence : start.nextSequence + work.length < u128Max)
    (hentry : start.pending.lookup key = some entry) (hopening : key ≠ .opening)
    (htracked : start.Tracked queue workClass source capacity work key entry) :
    start.Tracked (queue.put workClass source capacity item).2 workClass source capacity
      (work ++ [item]) key entry := by
  obtain ⟨henters, -⟩ := put_enters h.bounded workClass source item
  generalize (queue.put workClass source capacity item).2 = next at henters ⊢
  have hclass := Work.workClass_key hfits
  have hne : key ≠ item.key workClass := by
    rintro rfl
    cases (hstart.cleared _ hclass).symm.trans hentry
  rcases htracked with ⟨hpresent, hstays, hagree⟩ | ⟨hgone, hdisplaced⟩
  case inr =>
    refine .inr ⟨Option.eq_none_iff_forall_ne_some.mpr fun found hfound => ?_,
      displaced_snoc.mpr (.inr hdisplaced)⟩
    rcases henters.lookup hfound with ⟨heq, -⟩ | ⟨-, hfound⟩
    · exact hne heq
    · cases hgone.symm.trans hfound
  -- the new item enters both tables as the same entry
  have hsame : (start.pile workClass source work).entry workClass source item =
      queue.entry workClass source item := by
    unfold WorkQueue.entry
    rw [nextSequence_pile (Nat.le_of_lt hsequence), h.next]
  have hpile : (start.pile workClass source (work ++ [item])).pending =
      (start.pile workClass source work).pending.insert (item.key workClass)
        (queue.entry workClass source item) := by
    rw [pile_snoc, ← hsame]
    rfl
  have hagree' : ∀ other found, entry.rank ≤ found.rank →
      ((queue.inserted workClass source item).lookup other = some found ↔
        (start.pile workClass source (work ++ [item])).pending.lookup other = some found) := by
    intro other found hrank
    rw [hpile, lookup_insert, lookup_insert]
    split
    · exact Iff.rfl
    · exact hagree other found hrank
  have houtranking : outranking (start.pile workClass source (work ++ [item])).pending entry.rank =
      outranking (queue.inserted workClass source item) entry.rank := by
    ext other
    rw [mem_outranking, mem_outranking]
    refine and_congr_right fun _ => exists_congr fun found => ?_
    exact and_congr_left fun hrank => (hagree' other found hrank).symm
  have hinserted : (queue.inserted workClass source item).lookup key = some entry := by
    rw [lookup_insert, if_neg hne, hpresent]
  have hsubset := outranking_subset (queue.inserted workClass source item) entry.rank
  unfold Tracked
  rw [displaced_snoc, houtranking]
  cases henters with
  | fits hroom pending cancelled =>
    have hcard := (Finset.card_le_card hsubset).trans
      (room_congr (h.opening_inserted item) capacity ▸ WorkQueue.card_working_le hroom)
    rw [pending]
    exact .inl ⟨hinserted, not_or.mpr ⟨Nat.not_lt.mpr hcard, hstays⟩, hagree'⟩
  | evicts absent full lowest evicted notOpening present minimal pending cancelled =>
    have hcard := h.card_working_inserted absent full
    have hle := minimal key entry hopening hinserted
    rw [pending, lookup_erase]
    by_cases hfull : room start.pending capacity <
        (outranking (queue.inserted workClass source item) entry.rank).card
    · -- everything is of the rank and above, so that the entry is the lowest
      have hall := Finset.eq_of_subset_of_card_le hsubset (by omega)
      have hmem := mem_working.mpr ⟨notOpening, evicted, present⟩
      rw [← hall, mem_outranking] at hmem
      obtain ⟨-, found, hfound, hrank⟩ := hmem
      cases present.symm.trans hfound
      have hsequence' : evicted.sequence = entry.sequence :=
        congrArg (fun rank => (ofLex rank).2) (le_antisymm hle hrank)
      have heq : key = lowest := by
        rcases of_lookup_insert present with ⟨-, rfl⟩ | ⟨-, present⟩
        · have hlt := h.numbered key entry hpresent
          exact absurd hsequence'.symm (Nat.ne_of_lt hlt)
        · exact h.distinct key entry lowest evicted hpresent present hsequence'.symm
      exact .inr ⟨if_pos heq, .inl hfull⟩
    · have hlt : ¬entry.rank ≤ evicted.rank := by
        intro hrank
        refine hfull ?_
        have hall : working (queue.inserted workClass source item) ⊆ outranking (queue.inserted workClass source item) entry.rank := by
          intro other hother
          obtain ⟨hne, found, hfound⟩ := mem_working.mp hother
          exact mem_outranking.mpr ⟨hne, found, hfound,
            hrank.trans (minimal other found hne hfound)⟩
        have hle := Finset.card_le_card hall
        omega
      have hlowest : ∀ other found, entry.rank ≤ found.rank →
          (queue.inserted workClass source item).lookup other = some found → other ≠ lowest := by
        rintro other found hrank hfound rfl
        cases present.symm.trans hfound
        exact hlt hrank
      refine .inl ⟨?_, not_or.mpr ⟨hfull, hstays⟩, fun other found hrank => ?_⟩
      · rw [if_neg (hlowest key entry le_rfl hinserted), hinserted]
      · rw [← hagree' other found hrank, lookup_erase]
        constructor
        · intro hfound
          split at hfound
          · cases hfound
          · exact hfound
        · intro hfound
          rw [if_neg (hlowest other found hrank hfound), hfound]

theorem Cleared.displaced_iff (hstart : start.Cleared workClass capacity) (source : Nat)
    (hfits : ∀ item ∈ work, item.fits workClass)
    (hsequence : start.nextSequence + work.length ≤ u128Max)
    (hentry : start.pending.lookup key = some entry) (hopening : key ≠ .opening) :
    ((start.putAll workClass source capacity work).2.pending.lookup key = none ↔
        start.Displaced workClass source capacity work entry) ∧
      ((start.putAll workClass source capacity work).2.pending.lookup key = some entry ↔
        ¬start.Displaced workClass source capacity work entry) := by
  suffices htracked : start.Tracked (start.putAll workClass source capacity work).2 workClass
      source capacity work key entry by
    rcases htracked with ⟨hpresent, hstays, -⟩ | ⟨hgone, hdisplaced⟩
    · simp [hpresent, hstays]
    · simp [hgone, hdisplaced]
  induction work using List.reverseRecOn with
  | nil =>
    refine .inl ⟨hentry, ?_, fun _ _ _ => Iff.rfl⟩
    rintro ⟨items, hitems, hcard⟩
    obtain rfl := prefix_nil.mp ((mem_inits _ _).mp hitems)
    have hle := (Finset.card_le_card (outranking_subset start.pending entry.rank)).trans
      (WorkQueue.card_working_le hstart.bounded)
    exact absurd hcard (Nat.not_lt.mpr hle)
  | append_singleton work item ih =>
    rw [length_append, length_singleton] at hsequence
    rw [putAll_snoc]
    have hbefore := (forall_mem_append.mp hfits).1
    exact (hstart.putAll source hbefore (by omega)).tracked_put hstart
      (hfits item mem_concat_self) (by omega) hentry
      hopening (ih hbefore (by omega))

end feeding

end KeyReader.Runtime.WorkQueue
