import KeyReader.Runtime.SharedSources

/-! The replacement of the work of a class: when all work that it leaves pending stays alive. -/

namespace KeyReader.Runtime.WorkQueue

open Table

variable {S : Type}

/-- The pending work of a document in any run: the work of a class shares one source, and no other
work has that source. -/
structure WellFormed (queue : WorkQueue S) (capacity : Nat) : Prop where
  bounded : queue.pending.keys.length ≤ capacity
  numbered : ∀ key entry, queue.pending.lookup key = some entry →
    entry.sequence < queue.nextSequence
  distinct : ∀ key entry key' entry', queue.pending.lookup key = some entry →
    queue.pending.lookup key' = some entry' → entry.sequence = entry'.sequence → key = key'
  classed : ∀ key entry, queue.pending.lookup key = some entry → entry.workClass = key.workClass
  shared : ∀ key entry key' entry', queue.pending.lookup key = some entry →
    queue.pending.lookup key' = some entry' →
    (entry.cancellation = entry'.cancellation ↔ entry.workClass = entry'.workClass)

def Fresh (queue : WorkQueue S) (source : Nat) : Prop :=
  ∀ key entry, queue.pending.lookup key = some entry → entry.cancellation ≠ source

/-- Pending work is cancelled afterwards only if it was cancelled before. -/
def KeepsAlive (before after : WorkQueue S) : Prop :=
  ∀ key entry, after.pending.lookup key = some entry →
    entry.cancellation ∈ after.states.cancelled → entry.cancellation ∈ before.states.cancelled

/-- The batch is refused or accepted as a whole, and of every other class all work is displaced or
none. -/
structure Wholesale (queue : WorkQueue S) (workClass : WorkClass) (work : List Work)
    (source capacity : Nat) : Prop where
  batch : source ∈ queue.states.cancelled ∨
    (∀ item ∈ work, (queue.cancelClass workClass).Outranked capacity item) ∨
    (queue.cancelClass workClass).Roomy workClass capacity work
  others : ∀ key entry key' entry', key ≠ .opening → key' ≠ .opening →
    (queue.cancelClass workClass).pending.lookup key = some entry →
    (queue.cancelClass workClass).pending.lookup key' = some entry' →
    entry.workClass = entry'.workClass → entry.cancellation ∉ queue.states.cancelled →
    (queue.cancelClass workClass).Displaced workClass source capacity work entry →
    (queue.cancelClass workClass).Displaced workClass source capacity work entry'

theorem lookup_cancelClass (queue : WorkQueue S) (workClass : WorkClass) {key : WorkKey}
    {entry : PendingWork S} : (queue.cancelClass workClass).pending.lookup key = some entry ↔
      queue.pending.lookup key = some entry ∧ entry.workClass ≠ some workClass := by
  refine (Eq.congr_left (lookup_retain ..)).trans ?_
  cases hentry : queue.pending.lookup key with
  | none => simp
  | some found =>
    by_cases hclass : found.workClass = some workClass
    · rw [if_neg (by simp [hclass])]
      refine iff_of_false nofun ?_
      rintro ⟨heq, hne⟩
      exact hne (Option.some.inj heq ▸ hclass)
    · rw [if_pos (by simp [hclass])]
      refine (and_iff_left_of_imp fun heq => ?_).symm
      exact Option.some.inj heq ▸ hclass

theorem cancelled_cancelClass (queue : WorkQueue S) (workClass : WorkClass) {source : Nat} :
    source ∈ (queue.cancelClass workClass).states.cancelled ↔
      (∃ key entry, queue.pending.lookup key = some entry ∧ entry.workClass = some workClass ∧
        entry.cancellation = source) ∨ source ∈ queue.states.cancelled := by
  refine Cancellations.mem_cancelAll.trans (or_congr_left ?_)
  simp only [List.mem_map, List.mem_filter, decide_eq_true_eq, Sigma.exists,
    mem_entries_iff, and_assoc]

namespace WellFormed

variable {queue : WorkQueue S} {workClass : WorkClass} {work : List Work} {source capacity : Nat}

theorem cancelClass_length_le (queue : WorkQueue S) (workClass : WorkClass) :
    (queue.cancelClass workClass).pending.keys.length ≤ queue.pending.keys.length := by
  show ((queue.pending.entries.filter _).map Sigma.fst).length ≤
    (queue.pending.entries.map Sigma.fst).length
  rw [List.length_map, List.length_map]
  exact List.length_filter_le ..

section

variable (h : queue.WellFormed capacity)

include h

theorem cleared (workClass : WorkClass) :
    (queue.cancelClass workClass).Cleared workClass capacity where
  bounded := (cancelClass_length_le queue workClass).trans h.bounded
  numbered := fun key entry hentry =>
    h.numbered key entry ((lookup_cancelClass queue workClass).mp hentry).1
  distinct := fun key entry key' entry' hentry hentry' =>
    h.distinct key entry key' entry' ((lookup_cancelClass queue workClass).mp hentry).1
      ((lookup_cancelClass queue workClass).mp hentry').1
  cleared := by
    intro key hkey
    refine Option.eq_none_iff_forall_ne_some.mpr fun entry hentry => ?_
    obtain ⟨hentry, hne⟩ := (lookup_cancelClass queue workClass).mp hentry
    exact hne ((h.classed key entry hentry).trans hkey)

theorem fed (source : Nat) (hfits : ∀ item ∈ work, item.fits workClass)
    (hsequence : queue.nextSequence + work.length ≤ u128Max) :
    (queue.cancelClass workClass).Fed workClass source capacity work
      (queue.replaceClass workClass work source capacity).2 :=
  (h.cleared workClass).putAll source hfits hsequence

theorem replaceClass (hfresh : queue.Fresh source) (hfits : ∀ item ∈ work, item.fits workClass)
    (hsequence : queue.nextSequence + work.length ≤ u128Max) :
    (queue.replaceClass workClass work source capacity).2.WellFormed capacity := by
  have hfed := h.fed source hfits hsequence
  generalize (queue.replaceClass workClass work source capacity).2 = next at hfed
  have hkept : ∀ key entry, key.workClass ≠ some workClass →
      next.pending.lookup key = some entry → queue.pending.lookup key = some entry :=
    fun key entry hkey hentry =>
      ((lookup_cancelClass queue workClass).mp (hfed.kept key entry hkey hentry)).1
  have hclassed : ∀ key entry, next.pending.lookup key = some entry →
      entry.workClass = key.workClass := by
    intro key entry hentry
    by_cases hkey : key.workClass = some workClass
    · rw [hfed.classed key entry hkey hentry, hkey]
    · exact h.classed key entry (hkept key entry hkey hentry)
  refine ⟨hfed.bounded, hfed.numbered, hfed.distinct, hclassed, ?_⟩
  intro key entry key' entry' hentry hentry'
  have hclass := hclassed key entry hentry
  have hclass' := hclassed key' entry' hentry'
  by_cases hkey : key.workClass = some workClass <;>
    by_cases hkey' : key'.workClass = some workClass
  · rw [(hfed.batch key entry hkey hentry).1, (hfed.batch key' entry' hkey' hentry').1, hclass,
      hclass', hkey, hkey']
    exact iff_of_true rfl rfl
  · have hne := hfresh key' entry' (hkept key' entry' hkey' hentry')
    rw [(hfed.batch key entry hkey hentry).1, hclass, hclass', hkey]
    exact iff_of_false (Ne.symm hne) (Ne.symm hkey')
  · have hne := hfresh key entry (hkept key entry hkey hentry)
    rw [(hfed.batch key' entry' hkey' hentry').1, hclass, hclass', hkey']
    exact iff_of_false hne hkey
  · exact h.shared key entry key' entry' (hkept key entry hkey hentry)
      (hkept key' entry' hkey' hentry')

theorem of_subset {next : WorkQueue S}
    (hlength : next.pending.keys.length ≤ queue.pending.keys.length)
    (hnext : next.nextSequence = queue.nextSequence)
    (hkept : ∀ key entry, next.pending.lookup key = some entry →
      queue.pending.lookup key = some entry) : next.WellFormed capacity where
  bounded := hlength.trans h.bounded
  numbered := fun key entry hentry => hnext ▸ h.numbered key entry (hkept key entry hentry)
  distinct := fun key entry key' entry' hentry hentry' =>
    h.distinct key entry key' entry' (hkept key entry hentry) (hkept key' entry' hentry')
  classed := fun key entry hentry => h.classed key entry (hkept key entry hentry)
  shared := fun key entry key' entry' hentry hentry' =>
    h.shared key entry key' entry' (hkept key entry hentry) (hkept key' entry' hentry')

theorem cancelClass (workClass : WorkClass) : (queue.cancelClass workClass).WellFormed capacity :=
  h.of_subset (cancelClass_length_le queue workClass) rfl
    fun _ _ hentry => ((lookup_cancelClass queue workClass).mp hentry).1

theorem popNext : queue.popNext.2.WellFormed capacity := by
  unfold WorkQueue.popNext
  split
  · exact h
  · refine h.of_subset (length_keys_erase_le ..) rfl fun key entry hentry => ?_
    refine Option.mem_def.mp ?_
    replace hentry := (lookup_erase ..).symm.trans hentry
    split at hentry
    · cases hentry
    · exact hentry

end

theorem of_empty (h : queue.pending = ∅) : queue.WellFormed capacity := by
  have hlookup : ∀ key entry, queue.pending.lookup key ≠ some entry := by
    intro key entry hentry
    rw [h, AList.lookup_empty] at hentry
    cases hentry
  refine ⟨?_, ?_, ?_, ?_, ?_⟩
  · rw [h]
    exact Nat.zero_le _
  · exact fun key entry hentry => absurd hentry (hlookup key entry)
  · exact fun key entry _ _ hentry => absurd hentry (hlookup key entry)
  · exact fun key entry hentry => absurd hentry (hlookup key entry)
  · exact fun key entry _ _ hentry => absurd hentry (hlookup key entry)

theorem insertOpening (hempty : queue.pending = ∅) (hcapacity : 0 < capacity)
    (hsequence : queue.nextSequence < u128Max) (opened : S) :
    (queue.insertOpening opened source).WellFormed capacity := by
  have hlookup : ∀ key entry, (queue.insertOpening opened source).pending.lookup key =
      some entry → key = .opening ∧ entry.sequence = queue.nextSequence ∧
        entry.workClass = none ∧ entry.cancellation = source := by
    intro key entry hentry
    replace hentry := (lookup_insert ..).symm.trans hentry
    split at hentry
    · rename_i hkey
      cases hentry
      exact ⟨hkey, rfl, rfl, rfl⟩
    · change queue.pending.lookup key = some entry at hentry
      rw [hempty] at hentry
      cases hentry
  have hnext : (queue.insertOpening opened source).nextSequence = queue.nextSequence + 1 :=
    if_neg (Nat.ne_of_lt hsequence)
  refine ⟨?_, ?_, ?_, ?_, ?_⟩
  · refine (length_keys_insert_le ..).trans ?_
    show queue.pending.keys.length + 1 ≤ capacity
    rw [hempty]
    exact hcapacity
  · intro key entry hentry
    obtain ⟨-, hentrySequence, -⟩ := hlookup key entry hentry
    omega
  · intro key entry key' entry' hentry hentry' _
    rw [(hlookup key entry hentry).1, (hlookup key' entry' hentry').1]
  · intro key entry hentry
    obtain ⟨rfl, -, hclass, -⟩ := hlookup key entry hentry
    exact hclass
  · intro key entry key' entry' hentry hentry'
    obtain ⟨-, -, hclass, hsource⟩ := hlookup key entry hentry
    obtain ⟨-, -, hclass', hsource'⟩ := hlookup key' entry' hentry'
    rw [hclass, hclass', hsource, hsource']
    exact iff_of_true rfl rfl

end WellFormed

/-- The pending work of a document after any commands of its client, where every call makes a source
of its own and the numbers do not wrap around. -/
inductive Reachable (capacity : Nat) : WorkQueue S → Prop
  | new (states : Cancellations) : Reachable capacity ⟨∅, 1, states⟩
  | opened {queue : WorkQueue S} (before : Reachable capacity queue) (opened : S) (source : Nat)
      (sequence : queue.nextSequence < u128Max) :
      Reachable capacity (queue.cancelAndClear.insertOpening opened source)
  | closed {queue : WorkQueue S} (before : Reachable capacity queue) :
      Reachable capacity queue.cancelAndClear
  | replaced {queue : WorkQueue S} (before : Reachable capacity queue) (workClass : WorkClass)
      (work : List Work) (source : Nat) (fresh : queue.Fresh source)
      (fits : ∀ item ∈ work, item.fits workClass)
      (sequence : queue.nextSequence + work.length ≤ u128Max) :
      Reachable capacity (queue.replaceClass workClass work source capacity).2
  | classCancelled {queue : WorkQueue S} (before : Reachable capacity queue)
      (workClass : WorkClass) : Reachable capacity (queue.cancelClass workClass)
  | popped {queue : WorkQueue S} (before : Reachable capacity queue) :
      Reachable capacity queue.popNext.2
  | cancelled {queue : WorkQueue S} (before : Reachable capacity queue)
      (states : Cancellations) : Reachable capacity { queue with states }

theorem Reachable.wellFormed {queue : WorkQueue S} {capacity : Nat} (hcapacity : 0 < capacity)
    (h : queue.Reachable capacity) : queue.WellFormed capacity := by
  induction h with
  | new => exact .of_empty rfl
  | @opened queue before opened source sequence ih =>
    have hempty : queue.cancelAndClear.pending = ∅ := rfl
    exact WellFormed.insertOpening hempty hcapacity sequence opened
  | closed before ih => exact .of_empty rfl
  | replaced before workClass work source fresh fits sequence ih =>
    exact ih.replaceClass fresh fits sequence
  | classCancelled before workClass ih => exact ih.cancelClass workClass
  | popped before ih => exact ih.popNext
  | cancelled before states ih => exact ih.of_subset le_rfl rfl fun _ _ => id

/-- A replacement keeps all pending work alive exactly when it treats every class as a whole. -/
theorem replaceClass_keepsAlive_iff {queue : WorkQueue S} {workClass : WorkClass} {work : List Work}
    {source capacity : Nat} (h : queue.WellFormed capacity) (hfresh : queue.Fresh source)
    (hfits : ∀ item ∈ work, item.fits workClass)
    (hsequence : queue.nextSequence + work.length ≤ u128Max) :
    queue.KeepsAlive (queue.replaceClass workClass work source capacity).2 ↔
      queue.Wholesale workClass work source capacity := by
  have hcleared := h.cleared workClass
  have hfed := h.fed source hfits hsequence
  have hstart : ∀ key entry, (queue.cancelClass workClass).pending.lookup key = some entry →
      queue.pending.lookup key = some entry ∧ entry.workClass ≠ some workClass :=
    fun key entry => (lookup_cancelClass queue workClass).mp
  have hfresh' : ∀ key entry, (queue.cancelClass workClass).pending.lookup key = some entry →
      entry.cancellation ≠ source := fun key entry hentry =>
    hfresh key entry (hstart key entry hentry).1
  have hsource : source ∈ (queue.cancelClass workClass).states.cancelled ↔
      source ∈ queue.states.cancelled := by
    rw [cancelled_cancelClass, or_iff_right]
    rintro ⟨key, entry, hentry, -, hsource⟩
    exact hfresh key entry hentry hsource
  have hrefused := hcleared.refused_iff source hfits hsequence
  have hdisplaced := fun key entry
      (hentry : (queue.cancelClass workClass).pending.lookup key = some entry) hopening =>
    hcleared.displaced_iff source hfits hsequence hentry hopening
  unfold replaceClass at hfed ⊢
  generalize hafter : ((queue.cancelClass workClass).putAll workClass source capacity work).2 =
    after at hfed hrefused hdisplaced ⊢
  have hlive := fun hlive => hcleared.live_iff hfits hsequence hfresh' (mt hsource.mp hlive)
  rw [hafter] at hlive
  constructor
  · intro hkeeps
    refine ⟨?_, ?_⟩
    · by_contra hnot
      rw [not_or, not_or] at hnot
      obtain ⟨hcancelled, houtranked, hroomy⟩ := hnot
      obtain ⟨key, entry, hkey, hentry⟩ := not_not.mp (mt hrefused.mp houtranked)
      have hbatch := (hfed.batch key entry hkey hentry).1
      have hdead := not_not.mp (mt (hlive hcancelled).mp hroomy)
      exact hcancelled (hbatch ▸ hkeeps key entry hentry (hbatch.symm ▸ hdead))
    · intro key entry key' entry' hne hne' hentry hentry' hclass hcancelled hgone
      by_contra hstays
      have hgone' := (hdisplaced key entry hentry hne).1.mpr hgone
      have hstays' := (hdisplaced key' entry' hentry' hne').2.mpr hstays
      have hsame := (h.shared key entry key' entry' (hstart key entry hentry).1
        (hstart key' entry' hentry').1).mpr hclass
      have hdead := (hfed.cancelled entry.cancellation (hfresh' key entry hentry)).mpr
        (.inr ⟨key, entry, hentry, hgone', rfl⟩)
      exact hcancelled (hsame ▸ hkeeps key' entry' hstays' (hsame ▸ hdead))
  · rintro ⟨hbatch, hothers⟩ key entry hentry hdead
    by_cases hkey : key.workClass = some workClass
    · have hentrySource := (hfed.batch key entry hkey hentry).1
      rw [hentrySource] at hdead ⊢
      by_contra hcancelled
      rcases hbatch with hbatch | hbatch | hbatch
      · exact hcancelled hbatch
      · exact hrefused.mpr hbatch ⟨key, entry, hkey, hentry⟩
      · exact (hlive hcancelled).mpr hbatch hdead
    · have hbefore := hfed.kept key entry hkey hentry
      obtain ⟨hqueue, hclass⟩ := hstart key entry hbefore
      rcases (hfed.cancelled _ (hfresh' key entry hbefore)).mp hdead with
        hdead | ⟨other, found, hfound, hgone, hsame⟩
      · rcases (cancelled_cancelClass queue workClass).mp hdead with
          ⟨other, found, hfound, hfoundClass, hsame⟩ | hdead
        · have heq := (h.shared other found key entry hfound hqueue).mp hsame
          exact absurd (heq.symm.trans hfoundClass) hclass
        · exact hdead
      · have heq := (h.shared other found key entry (hstart other found hfound).1 hqueue).mp hsame
        have hne' : other ≠ .opening := by
          rintro rfl
          cases (hfed.opening.trans hfound).symm.trans hgone
        have hne : key ≠ .opening := by
          rintro rfl
          rw [h.classed other found (hstart other found hfound).1,
            h.classed .opening entry hqueue] at heq
          exact hne' (by cases other <;> first | rfl | cases heq)
        by_contra hcancelled
        have hdisplacedFound := (hdisplaced other found hfound hne').1.mp hgone
        have hdisplacedEntry := hothers other found key entry hne' hne hfound hbefore heq
          (hsame ▸ hcancelled) hdisplacedFound
        cases hentry.symm.trans ((hdisplaced key entry hbefore hne).1.mpr hdisplacedEntry)

/-- The text of a page, to be extracted for a document that was just opened. -/
def pageText (page : Nat) : Work :=
  .text ⟨⟨1, page + 1, 128, .visible⟩, page, .visibleLayer⟩

def opened : WorkQueue Nat := ⟨∅, 1, ⟨1, []⟩⟩

theorem replaceClass_keepsAlive_pages :
    opened.KeepsAlive (opened.replaceClass .visibleText [pageText 0, pageText 1] 0 4).2 := by
  have hroomy : (opened.cancelClass .visibleText).Roomy .visibleText 4
      [pageText 0, pageText 1] := by
    refine ⟨by decide, ?_⟩
    decide +kernel
  have hfresh : opened.Fresh 0 := by
    intro key entry hentry
    cases (AList.lookup_empty key).symm.trans hentry
  refine (replaceClass_keepsAlive_iff ((Reachable.new ⟨1, []⟩).wellFormed (by decide)) hfresh
    (by decide) (by decide +kernel)).mpr ⟨.inr (.inr hroomy), ?_⟩
  intro key entry key' entry' hne hne' hentry
  cases hentry

/-- A batch that names a page twice cancels the source that its items share. -/
theorem replaceClass_kills_repeated :
    ¬opened.KeepsAlive (opened.replaceClass .visibleText [pageText 0, pageText 0] 0 4).2 := by
  intro hkeeps
  have hcancelled := hkeeps (.text .visibleText 0)
    { sequence := 2, priority := 128, workClass := some .visibleText, cancellation := 0
      kind := .engine (pageText 0) } rfl (by decide)
  cases hcancelled

end KeyReader.Runtime.WorkQueue
