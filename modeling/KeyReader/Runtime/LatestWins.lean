import KeyReader.Runtime.Scheduler

/-! The invariant of the scheduler: what is pending, what is in flight and what is the latest demand
of a key, and that every accepted demand leaves the queue once. -/

namespace KeyReader.Runtime

open List Table

namespace LatestWinsQueue

variable {K V : Type} [DecidableEq K]

/-- The queue is sound, where `latest` need only be right for some keys.  The source of a demand is
made right after its revision is allocated. -/
structure SoundOn (keys : K → Prop) (queue : LatestWinsQueue K V) : Prop where
  bounded : queue.queued.keys.length ≤ queue.capacity
  running : queue.inFlight.keys.length ≤ queue.maxInFlight
  made : queue.cancellations.made + 1 = queue.nextRevision
  queuedSource : ∀ k q, queue.queued.lookup k = some q →
    q.cancellation + 1 = q.revision ∧ q.revision < queue.nextRevision
  inFlightSource : ∀ k f, queue.inFlight.lookup k = some f →
    f.cancellation + 1 = f.revision ∧ f.revision < queue.nextRevision
  cancelledMade : ∀ source ∈ queue.cancellations.cancelled, source < queue.cancellations.made
  queuedUnique : ∀ k q k' q', queue.queued.lookup k = some q → queue.queued.lookup k' = some q' →
    q.revision = q'.revision → k = k'
  inFlightUnique : ∀ k f k' f', queue.inFlight.lookup k = some f →
    queue.inFlight.lookup k' = some f' → f.revision = f'.revision → k = k'
  apart : ∀ k q k' f, queue.queued.lookup k = some q → queue.inFlight.lookup k' = some f →
    q.revision ≠ f.revision
  live : ∀ k q, queue.queued.lookup k = some q → q.cancellation ∉ queue.cancellations.cancelled
  latestQueued : ∀ k q, keys k → queue.queued.lookup k = some q →
    queue.latest.lookup k = some q.revision
  latestInFlight : ∀ k f, keys k → queue.inFlight.lookup k = some f →
    (queue.latest.lookup k = some f.revision ↔ f.cancellation ∉ queue.cancellations.cancelled)
  latestOwned : ∀ k r, keys k → queue.latest.lookup k = some r →
    (∃ q, queue.queued.lookup k = some q ∧ q.revision = r) ∨
      ∃ f, queue.inFlight.lookup k = some f ∧ f.revision = r

abbrev Sound (queue : LatestWinsQueue K V) : Prop := SoundOn (fun _ => True) queue

variable {queue : LatestWinsQueue K V}

theorem sound_withMaxInFlight {capacity maxInFlight : Nat}
    (h : withMaxInFlight capacity maxInFlight = some queue) : queue.Sound := by
  unfold withMaxInFlight at h
  split at h
  · cases h
  · cases h
    constructor <;> simp

variable {key : K} {q : Queued V} {next : LatestWinsQueue K V} {revision priority : Nat} {value : V}

namespace SoundOn

variable {keys : K → Prop}

/-- The removal and cancellation of a pending demand. -/
theorem depart (h : queue.SoundOn keys) (hq : queue.queued.lookup key = some q)
    (departure : Departure) : ((queue.depart key q departure).cancelSource q.cancellation).SoundOn
      fun k => keys k ∧ k ≠ key := by
  have hsource := h.queuedSource key q hq
  refine { h with
    bounded := Nat.le_trans (length_keys_erase_le _ _) h.bounded
    queuedSource := fun k q' hk => h.queuedSource k q' (of_lookup_erase hk).2
    cancelledMade := ?_
    queuedUnique := fun k q₁ k' q₂ h₁ h₂ =>
      h.queuedUnique k q₁ k' q₂ (of_lookup_erase h₁).2 (of_lookup_erase h₂).2
    apart := fun k q' k' f hk => h.apart k q' k' f (of_lookup_erase hk).2
    live := ?_
    latestQueued := fun k q' hkey hk => h.latestQueued k q' hkey.1 (of_lookup_erase hk).2
    latestInFlight := ?_
    latestOwned := ?_ }
  · intro source hmem
    have hmade := h.made
    rcases Cancellations.mem_cancel.mp hmem with rfl | hmem
    · show q.cancellation < queue.cancellations.made
      omega
    · exact h.cancelledMade source hmem
  · intro k q' hk hmem
    obtain ⟨hne, hk⟩ := of_lookup_erase hk
    rcases Cancellations.mem_cancel.mp hmem with heq | hmem
    · have hsource' := h.queuedSource k q' hk
      exact hne (h.queuedUnique k q' key q hk hq (by omega))
    · exact h.live k q' hk hmem
  · rintro k f ⟨hkey, hne⟩ hf
    have hsource' := h.inFlightSource k f hf
    have hapart := h.apart key q k f hq hf
    show queue.latest.lookup k = some f.revision ↔ f.cancellation ∉ (_ :: _)
    rw [h.latestInFlight k f hkey hf, mem_cons, not_or]
    exact ⟨fun hmem => ⟨by omega, hmem⟩, fun hmem => hmem.2⟩
  · rintro k r ⟨hkey, hne⟩ hr
    refine (h.latestOwned k r hkey hr).imp_left ?_
    rintro ⟨q', hq', hrevision⟩
    refine ⟨q', ?_, hrevision⟩
    show (queue.queued.erase key).lookup k = some q'
    rw [lookup_erase, if_neg hne, hq']

omit [DecidableEq K] in
theorem allocateRevision_eq_some :
    queue.allocateRevision = some (revision, next) ↔ queue.nextRevision + 1 ≤ u128Max ∧
      revision = queue.nextRevision ∧
      next = { queue with nextRevision := queue.nextRevision + 1 } := by
  unfold allocateRevision
  split
  · rename_i h
    simp only [Option.some.injEq, Prod.mk.injEq, h, true_and, eq_comm]
  · rename_i h
    simp [h]

theorem accept_eq_some (h : queue.accept key priority value = some (revision, next)) :
    revision = queue.nextRevision ∧ next.capacity = queue.capacity ∧
      next.maxInFlight = queue.maxInFlight ∧ next.nextRevision = queue.nextRevision + 1 ∧
      next.queued = queue.queued.insert key
        { revision := queue.nextRevision, priority, value
          cancellation := queue.cancellations.made } ∧
      next.inFlight = queue.inFlight ∧
      next.latest = queue.latest.insert key queue.nextRevision ∧
      next.cancellations.made = queue.cancellations.made + 1 ∧
      (∀ source, source ∈ next.cancellations.cancelled ↔ source ∈ queue.cancellations.cancelled ∨
          ∃ f, queue.inFlight.lookup key = some f ∧ f.cancellation = source) ∧
      next.departed = queue.departed := by
  unfold accept at h
  obtain ⟨⟨revision', allocated⟩, hallocated, h⟩ := Option.bind_eq_some_iff.mp h
  obtain ⟨-, rfl, rfl⟩ := allocateRevision_eq_some.mp hallocated
  cases h
  unfold cancelInFlight
  cases hf : queue.inFlight.lookup key with
  | none => simp
  | some f =>
    refine ⟨rfl, rfl, rfl, rfl, rfl, rfl, rfl, rfl, fun source => ?_, rfl⟩
    show source ∈ (f.cancellation :: queue.cancellations.cancelled) ↔ _
    simp only [mem_cons, Option.some.injEq, exists_eq_left', eq_comm, or_comm]

/-- A demand is accepted when there is room and none with its key is pending. -/
theorem accept (h : queue.SoundOn fun k => k ≠ key)
    (hroom : queue.queued.keys.length < queue.capacity)
    (haccept : queue.accept key priority value = some (revision, next)) : next.Sound := by
  obtain ⟨-, hcapacity, hmax, hnext, hqueued, hinFlight, hlatest, hmade, hcancelled, -⟩ :=
    accept_eq_some haccept
  have hmade' := h.made
  have hlookup : ∀ k q, next.queued.lookup k = some q →
      (k = key ∧ q.revision = queue.nextRevision ∧ q.cancellation = queue.cancellations.made) ∨
        (k ≠ key ∧ queue.queued.lookup k = some q) := by
    intro k q hk
    rw [hqueued] at hk
    rcases of_lookup_insert hk with ⟨rfl, rfl⟩ | hother
    · exact .inl ⟨rfl, rfl, rfl⟩
    · exact .inr hother
  have hkept : ∀ k f, k ≠ key → queue.inFlight.lookup k = some f →
      (f.cancellation ∈ next.cancellations.cancelled ↔
        f.cancellation ∈ queue.cancellations.cancelled) := by
    intro k f hne hf
    rw [hcancelled]
    refine ⟨fun hmem => hmem.resolve_right ?_, .inl⟩
    rintro ⟨f', hf', heq⟩
    have hsource := h.inFlightSource k f hf
    have hsource' := h.inFlightSource key f' hf'
    exact hne (h.inFlightUnique k f key f' hf hf' (by omega))
  refine {
    bounded := ?_
    running := by rw [hinFlight, hmax]; exact h.running
    made := by omega
    queuedSource := ?_
    inFlightSource := ?_
    cancelledMade := ?_
    queuedUnique := ?_
    inFlightUnique := by rw [hinFlight]; exact h.inFlightUnique
    apart := ?_
    live := ?_
    latestQueued := ?_
    latestInFlight := ?_
    latestOwned := ?_ }
  · rw [hqueued, hcapacity]
    have hlength := length_keys_insert_le queue.queued key
      { revision := queue.nextRevision, priority, value, cancellation := queue.cancellations.made }
    omega
  · intro k q hk
    rcases hlookup k q hk with ⟨-, hrevision, hsource⟩ | ⟨-, hk⟩
    · omega
    · have hsource := h.queuedSource k q hk
      omega
  · intro k f hf
    rw [hinFlight] at hf
    have hsource := h.inFlightSource k f hf
    omega
  · intro source hmem
    rw [hmade]
    rcases (hcancelled source).mp hmem with hmem | ⟨f, hf, rfl⟩
    · have hlt := h.cancelledMade source hmem
      omega
    · have hsource := h.inFlightSource key f hf
      omega
  · intro k q k' q' hk hk' heq
    rcases hlookup k q hk with ⟨rfl, hrevision, -⟩ | ⟨-, hk⟩ <;>
      rcases hlookup k' q' hk' with ⟨rfl, hrevision', -⟩ | ⟨-, hk'⟩
    · rfl
    · have hlt := (h.queuedSource k' q' hk').2
      omega
    · have hlt := (h.queuedSource k q hk).2
      omega
    · exact h.queuedUnique k q k' q' hk hk' heq
  · intro k q k' f hk hf
    rw [hinFlight] at hf
    rcases hlookup k q hk with ⟨-, hrevision, -⟩ | ⟨-, hk⟩
    · have hlt := (h.inFlightSource k' f hf).2
      omega
    · exact h.apart k q k' f hk hf
  · intro k q hk hmem
    rcases hlookup k q hk with ⟨-, -, hsource⟩ | ⟨-, hk⟩
    · rcases (hcancelled _).mp hmem with hmem | ⟨f, hf, heq⟩
      · have hlt := h.cancelledMade _ hmem
        omega
      · have hsource' := h.inFlightSource key f hf
        omega
    · rcases (hcancelled _).mp hmem with hmem | ⟨f, hf, heq⟩
      · exact h.live k q hk hmem
      · have hsource := h.queuedSource k q hk
        have hsource' := h.inFlightSource key f hf
        exact h.apart k q key f hk hf (by omega)
  · intro k q _ hk
    rw [hlatest, lookup_insert]
    rcases hlookup k q hk with ⟨rfl, hrevision, -⟩ | ⟨hne, hk⟩
    · rw [if_pos rfl, hrevision]
    · rw [if_neg hne, h.latestQueued k q hne hk]
  · intro k f _ hf
    rw [hinFlight] at hf
    rw [hlatest, lookup_insert]
    split
    · rename_i heq
      subst heq
      have hlt := (h.inFlightSource k f hf).2
      have hmem := (hcancelled f.cancellation).mpr (.inr ⟨f, hf, rfl⟩)
      simp only [Option.some.injEq, hmem, not_true_eq_false, iff_false]
      omega
    · rename_i hne
      rw [h.latestInFlight k f hne hf, hkept k f hne hf]
  · intro k r _ hr
    rw [hlatest, lookup_insert] at hr
    rw [hqueued, hinFlight, lookup_insert]
    split at hr
    · rename_i heq
      rw [if_pos heq]
      exact .inl ⟨_, rfl, Option.some.inj hr⟩
    · rename_i hne
      rw [if_neg hne]
      exact h.latestOwned k r hne hr

theorem mono {keys' : K → Prop} (h : queue.SoundOn keys) (hkeys : ∀ k, keys' k → keys k) :
    queue.SoundOn keys' :=
  { h with
    latestQueued := fun k q hk => h.latestQueued k q (hkeys k hk)
    latestInFlight := fun k f hk => h.latestInFlight k f (hkeys k hk)
    latestOwned := fun k r hk => h.latestOwned k r (hkeys k hk) }

theorem forget (h : queue.SoundOn fun k => k ≠ key) (hqueued : queue.queued.lookup key = none)
    (hinFlight : ∀ f, queue.inFlight.lookup key = some f →
      f.cancellation ∈ queue.cancellations.cancelled) :
    { queue with latest := queue.latest.erase key }.Sound := by
  have hlookup : ∀ k, (queue.latest.erase key).lookup k = if k = key then none else
      queue.latest.lookup k := fun k => lookup_erase ..
  refine { h with
    latestQueued := ?_
    latestInFlight := ?_
    latestOwned := ?_ }
  · intro k q _ hk
    have hne : k ≠ key := by
      rintro rfl
      cases hqueued.symm.trans hk
    rw [hlookup, if_neg hne]
    exact h.latestQueued k q hne hk
  · intro k f _ hf
    rw [hlookup]
    split
    · rename_i heq
      subst heq
      simp [hinFlight f hf]
    · rename_i hne
      exact h.latestInFlight k f hne hf
  · intro k r _ hr
    rw [hlookup] at hr
    split at hr
    · cases hr
    · rename_i hne
      exact h.latestOwned k r hne hr

variable {f : InFlight}

theorem cancelled_of_queued (h : queue.Sound) (hq : queue.queued.lookup key = some q)
    (hf : queue.inFlight.lookup key = some f) : f.cancellation ∈ queue.cancellations.cancelled := by
  have hstale : queue.latest.lookup key ≠ some f.revision := by
    rw [h.latestQueued key q trivial hq]
    exact fun heq => h.apart key q key f hq hf (Option.some.inj heq)
  exact not_not.mp (mt (h.latestInFlight key f trivial hf).mpr hstale)

theorem evict_eq (h : queue.Sound) (hq : queue.queued.lookup key = some q) : (queue.evict key q).2 =
      { (queue.depart key q .evicted).cancelSource q.cancellation with
        latest := queue.latest.erase key } := by
  unfold LatestWinsQueue.evict
  dsimp only
  rw [if_pos (by exact h.latestQueued key q trivial hq)]
  rfl

theorem evict (h : queue.Sound) (hq : queue.queued.lookup key = some q) :
    (queue.evict key q).2.Sound := by
  rw [h.evict_eq hq]
  have hdeparted := (h.depart hq .evicted).mono fun _ hne => ⟨trivial, hne⟩
  apply hdeparted.forget
  · exact (lookup_erase ..).trans (if_pos rfl)
  · intro f hf
    exact mem_cons_of_mem _ (h.cancelled_of_queued hq hf)

theorem room_of_departed (h : queue.SoundOn keys) (hq : queue.queued.lookup key = some q) :
    (queue.queued.erase key).keys.length < queue.capacity := by
  have hmem := AList.mem_keys.mp (mem_of_lookup hq)
  have hpos := length_pos_of_mem hmem
  have hbounded := h.bounded
  rw [AList.keys_erase, length_erase_of_mem hmem]
  omega

variable {demand : ScheduledDemand K V}

theorem finish_of_inFlight (hf : queue.inFlight.lookup demand.key = some f)
    (hrevision : f.revision = demand.revision) : queue.finish demand =
      if queue.latest.lookup demand.key = some f.revision then
        (.publish, { queue with
          inFlight := queue.inFlight.erase demand.key
          latest := queue.latest.erase demand.key })
      else (.stale, { queue with inFlight := queue.inFlight.erase demand.key }) := by
  unfold LatestWinsQueue.finish
  rw [if_neg (by simp [hf, hrevision]), hrevision]

theorem finish_of_unknown
    (h : ∀ f, queue.inFlight.lookup demand.key = some f → f.revision ≠ demand.revision) :
    queue.finish demand = (.unknown, queue) := by
  unfold LatestWinsQueue.finish
  rw [if_pos]
  intro heq
  obtain ⟨f, hf, hrevision⟩ := Option.map_eq_some_iff.mp heq
  exact h f hf hrevision

theorem finish_disposition (h : queue.Sound) (hf : queue.inFlight.lookup demand.key = some f)
    (hrevision : f.revision = demand.revision) : (queue.finish demand).1 =
      if f.cancellation ∈ queue.cancellations.cancelled then .stale else .publish := by
  rw [finish_of_inFlight hf hrevision]
  have hlatest := h.latestInFlight demand.key f trivial hf
  by_cases hcancelled : f.cancellation ∈ queue.cancellations.cancelled
  · rw [if_neg (by simp [hlatest, hcancelled]), if_pos hcancelled]
  · rw [if_pos (hlatest.mpr hcancelled), if_neg hcancelled]

theorem finish (h : queue.Sound) (demand : ScheduledDemand K V) :
    (queue.finish demand).2.Sound := by
  by_cases hknown : ∃ f, queue.inFlight.lookup demand.key = some f ∧ f.revision = demand.revision
  case neg =>
    rw [finish_of_unknown fun f hf hrevision => hknown ⟨f, hf, hrevision⟩]
    exact h
  obtain ⟨f, hf, hrevision⟩ := hknown
  rw [finish_of_inFlight hf hrevision]
  have hother : { queue with inFlight := queue.inFlight.erase demand.key }.SoundOn
      fun k => k ≠ demand.key :=
    { h with
      running := Nat.le_trans (length_keys_erase_le _ _) h.running
      inFlightSource := fun k f' hk => h.inFlightSource k f' (of_lookup_erase hk).2
      inFlightUnique := fun k f₁ k' f₂ h₁ h₂ =>
        h.inFlightUnique k f₁ k' f₂ (of_lookup_erase h₁).2 (of_lookup_erase h₂).2
      apart := fun k q k' f' hk hf' => h.apart k q k' f' hk (of_lookup_erase hf').2
      latestQueued := fun k q _ => h.latestQueued k q trivial
      latestInFlight := fun k f' _ hk => h.latestInFlight k f' trivial (of_lookup_erase hk).2
      latestOwned := by
        intro k r hne hr
        refine (h.latestOwned k r trivial hr).imp_right ?_
        rintro ⟨f', hf', hr'⟩
        exact ⟨f', (lookup_erase ..).trans ((if_neg hne).trans hf'), hr'⟩ }
  split
  · rename_i hlatest
    apply hother.forget
    · -- a pending demand would be the latest one
      refine Option.eq_none_iff_forall_ne_some.mpr fun q hq => ?_
      have hpending := h.latestQueued demand.key q trivial hq
      exact h.apart demand.key q demand.key f hq hf (Option.some.inj (hpending.symm.trans hlatest))
    · intro f' hf'
      exact absurd rfl (of_lookup_erase hf').1
  · rename_i hstale
    refine { hother with
      latestQueued := fun k q _ => h.latestQueued k q trivial
      latestInFlight := fun k f' _ hk => h.latestInFlight k f' trivial (of_lookup_erase hk).2
      latestOwned := ?_ }
    intro k r _ hr
    refine (h.latestOwned k r trivial hr).imp_right ?_
    rintro ⟨f', hf', hr'⟩
    refine ⟨f', (lookup_erase ..).trans ((if_neg ?_).trans hf'), hr'⟩
    rintro rfl
    cases hf.symm.trans hf'
    exact hstale (hr.trans (congrArg some hr'.symm))

theorem popNext_cases (queue : LatestWinsQueue K V) : queue.popNext = (none, queue) ∨
    ∃ key q, queue.queued.lookup key = some q ∧ queue.inFlight.lookup key = none ∧
      queue.inFlight.keys.length < queue.maxInFlight ∧
      queue.popNext = (some { key, revision := q.revision, priority := q.priority
                              value := q.value, cancellation := q.cancellation },
        { queue.depart key q .popped with
          inFlight := queue.inFlight.insert key
            { revision := q.revision, cancellation := q.cancellation } }) := by
  unfold popNext
  split
  · exact .inl rfl
  split
  · exact .inl rfl
  rename_i key hkey
  obtain ⟨q, hq, hfree, -⟩ := highest_eq_some hkey
  refine .inr ⟨key, q, hq, Option.isNone_iff_eq_none.mp hfree, by omega, ?_⟩
  rw [hq]

section

variable (h : queue.Sound)

include h

theorem popNext : queue.popNext.2.Sound := by
  rcases popNext_cases queue with heq | ⟨key, q, hq, hfree, hroom, heq⟩ <;> rw [heq]
  · exact h
  have hinFlight : ∀ k f, (queue.inFlight.insert key
      { revision := q.revision, cancellation := q.cancellation }).lookup k = some f →
      (k = key ∧ f = { revision := q.revision, cancellation := q.cancellation }) ∨
        (k ≠ key ∧ queue.inFlight.lookup k = some f) :=
    fun k f hk => (of_lookup_insert hk).imp_left fun heq => ⟨heq.1, heq.2.symm⟩
  refine {
    bounded := Nat.le_trans (length_keys_erase_le _ _) h.bounded
    running := ?_
    made := h.made
    queuedSource := fun k q' hk => h.queuedSource k q' (of_lookup_erase hk).2
    inFlightSource := ?_
    cancelledMade := h.cancelledMade
    queuedUnique := fun k q₁ k' q₂ h₁ h₂ =>
      h.queuedUnique k q₁ k' q₂ (of_lookup_erase h₁).2 (of_lookup_erase h₂).2
    inFlightUnique := ?_
    apart := ?_
    live := fun k q' hk => h.live k q' (of_lookup_erase hk).2
    latestQueued := fun k q' _ hk => h.latestQueued k q' trivial (of_lookup_erase hk).2
    latestInFlight := ?_
    latestOwned := ?_ }
  · have hlength := length_keys_insert_le queue.inFlight key
      { revision := q.revision, cancellation := q.cancellation }
    exact Nat.le_trans hlength hroom
  · intro k f hf
    rcases hinFlight k f hf with ⟨-, rfl⟩ | ⟨-, hf⟩
    · exact h.queuedSource key q hq
    · exact h.inFlightSource k f hf
  · intro k f k' f' hf hf' heq
    rcases hinFlight k f hf with ⟨rfl, rfl⟩ | ⟨-, hold⟩ <;>
      rcases hinFlight k' f' hf' with ⟨rfl, rfl⟩ | ⟨-, hold'⟩
    · rfl
    · exact absurd heq (h.apart k q k' f' hq hold')
    · exact absurd heq.symm (h.apart k' q k f hq hold)
    · exact h.inFlightUnique k f k' f' hold hold' heq
  · intro k q' k' f hk hf
    obtain ⟨hne, hk⟩ := of_lookup_erase hk
    rcases hinFlight k' f hf with ⟨-, rfl⟩ | ⟨-, hf⟩
    · exact fun heq => hne (h.queuedUnique k q' key q hk hq heq)
    · exact h.apart k q' k' f hk hf
  · intro k f _ hf
    rcases hinFlight k f hf with ⟨rfl, rfl⟩ | ⟨-, hf⟩
    · exact iff_of_true (h.latestQueued k q trivial hq) (h.live k q hq)
    · exact h.latestInFlight k f trivial hf
  · intro k r _ hr
    by_cases hkey : k = key
    · subst hkey
      have hlatest := h.latestQueued k q trivial hq
      exact .inr ⟨_, (lookup_insert ..).trans (if_pos rfl), Option.some.inj (hlatest.symm.trans hr)⟩
    · rcases h.latestOwned k r trivial hr with ⟨q', hq', hr'⟩ | ⟨f, hf, hr'⟩
      · exact .inl ⟨q', (lookup_erase ..).trans ((if_neg hkey).trans hq'), hr'⟩
      · exact .inr ⟨f, (lookup_insert ..).trans ((if_neg hkey).trans hf), hr'⟩

/-- The cancellation of the demand in flight with a key whose latest demand is to be forgotten. -/
theorem cancelInFlight (key : K) : (queue.cancelInFlight key).SoundOn (fun k => k ≠ key) ∧
      ∀ f, queue.inFlight.lookup key = some f →
        f.cancellation ∈ (queue.cancelInFlight key).cancellations.cancelled := by
  unfold LatestWinsQueue.cancelInFlight
  cases hf : queue.inFlight.lookup key with
  | none => exact ⟨h.mono fun _ _ => trivial, nofun⟩
  | some f =>
    have hsource := h.inFlightSource key f hf
    refine ⟨{ h with
      cancelledMade := ?_
      live := ?_
      latestQueued := fun k q _ => h.latestQueued k q trivial
      latestInFlight := ?_
      latestOwned := fun k r _ => h.latestOwned k r trivial }, ?_⟩
    · intro source hmem
      have hmade := h.made
      rcases Cancellations.mem_cancel.mp hmem with rfl | hmem
      · show f.cancellation < queue.cancellations.made
        omega
      · exact h.cancelledMade source hmem
    · intro k q hq hmem
      have hqueued := h.queuedSource k q hq
      have hapart := h.apart k q key f hq hf
      rcases Cancellations.mem_cancel.mp hmem with heq | hmem
      · omega
      · exact h.live k q hq hmem
    · intro k f' hne hf'
      have hsource' := h.inFlightSource k f' hf'
      show queue.latest.lookup k = _ ↔ f'.cancellation ∉ (_ :: _)
      rw [h.latestInFlight k f' trivial hf', mem_cons, not_or]
      refine ⟨fun hmem => ⟨fun heq => ?_, hmem⟩, And.right⟩
      exact hne (h.inFlightUnique k f' key f hf' hf (by omega))
    · rintro f' heq
      cases heq
      exact mem_cons_self

theorem cancel (key : K) : (queue.cancel key).2.Sound := by
  obtain ⟨hcancelled, hinFlight⟩ := h.cancelInFlight key
  have hsame : { queue with latest := queue.latest.erase key }.cancelInFlight key =
      { queue.cancelInFlight key with
        latest := (queue.cancelInFlight key).latest.erase key } := by
    unfold LatestWinsQueue.cancelInFlight
    cases hf : queue.inFlight.lookup key <;> rfl
  have hflight : (queue.cancelInFlight key).inFlight = queue.inFlight := by
    unfold LatestWinsQueue.cancelInFlight
    cases queue.inFlight.lookup key <;> rfl
  unfold LatestWinsQueue.cancel
  dsimp only
  rw [hsame]
  split
  · rename_i hq
    exact hcancelled.forget hq fun f hf => hinFlight f (hflight ▸ hf)
  · rename_i q hq
    have hdeparted := (hcancelled.depart hq .cancelled).mono fun k hne => ⟨hne, hne⟩
    refine hdeparted.forget ((lookup_erase ..).trans (if_pos rfl)) fun f hf => ?_
    exact mem_cons_of_mem _ (hinFlight f (hflight ▸ hf))

theorem clearPending : queue.clearPending.2.Sound := by
  have hcancelled : ∀ source, source ∈ queue.clearPending.2.cancellations.cancelled ↔
      (∃ k q, queue.queued.lookup k = some q ∧ q.cancellation = source) ∨
        (∃ k f, queue.inFlight.lookup k = some f ∧ f.cancellation = source) ∨
          source ∈ queue.cancellations.cancelled := by
    intro source
    simp only [LatestWinsQueue.clearPending, Cancellations.mem_cancelAll, mem_map,
      ← mem_entries_iff, Sigma.exists]
  refine { h with
    bounded := Nat.zero_le _
    made := ?_
    queuedSource := nofun
    cancelledMade := ?_
    queuedUnique := nofun
    apart := nofun
    live := nofun
    latestQueued := nofun
    latestInFlight := ?_
    latestOwned := nofun }
  · simpa [LatestWinsQueue.clearPending] using h.made
  · intro source hmem
    have hmade := h.made
    have hsame : queue.clearPending.2.cancellations.made = queue.cancellations.made := by
      simp [LatestWinsQueue.clearPending]
    rcases (hcancelled source).mp hmem with ⟨k, q, hq, rfl⟩ | ⟨k, f, hf, rfl⟩ | hmem
    · have hsource := h.queuedSource k q hq
      omega
    · have hsource := h.inFlightSource k f hf
      omega
    · rw [hsame]
      exact h.cancelledMade source hmem
  · intro k f _ hf
    have hmem := (hcancelled f.cancellation).mpr (.inr (.inl ⟨k, f, hf, rfl⟩))
    exact iff_of_false nofun (not_not.mpr hmem)

end

end SoundOn

/-- How `schedule` makes room for a new demand. -/
inductive MakesRoom (queue : LatestWinsQueue K V) (key : K) : LatestWinsQueue K V → Prop
  | free (absent : queue.queued.lookup key = none)
      (room : queue.queued.keys.length < queue.capacity) : MakesRoom queue key queue
  | replaced (previous : Queued V) (present : queue.queued.lookup key = some previous) :
      MakesRoom queue key ((queue.depart key previous .replaced).cancelSource previous.cancellation)
  | evicted (other : K) (candidate : Queued V) (absent : queue.queued.lookup key = none)
      (present : queue.queued.lookup other = some candidate) :
      MakesRoom queue key (queue.evict other candidate).2

variable {outcome : ScheduleOutcome K V}

theorem schedule_cases (h : queue.schedule key priority value = some (outcome, next)) :
    (outcome.revision = none ∧ next = queue) ∨
      ∃ roomy revision, queue.MakesRoom key roomy ∧ outcome.revision = some revision ∧
        roomy.accept key priority value = some (revision, next) := by
  unfold schedule at h
  split at h
  · cases h
    exact .inl ⟨rfl, rfl⟩
  split at h
  · rename_i previous hprevious
    obtain ⟨⟨revision, accepted⟩, haccept, h⟩ := Option.bind_eq_some_iff.mp h
    cases h
    exact .inr ⟨_, revision, .replaced previous hprevious, rfl, haccept⟩
  · rename_i habsent
    split at h
    · rename_i hroom
      obtain ⟨⟨revision, accepted⟩, haccept, h⟩ := Option.bind_eq_some_iff.mp h
      cases h
      exact .inr ⟨_, revision, .free habsent hroom, rfl, haccept⟩
    · obtain ⟨other, -, h⟩ := Option.bind_eq_some_iff.mp h
      obtain ⟨candidate, hcandidate, h⟩ := Option.bind_eq_some_iff.mp h
      split at h
      · cases h
        exact .inl ⟨rfl, rfl⟩
      · obtain ⟨⟨revision, accepted⟩, haccept, h⟩ := Option.bind_eq_some_iff.mp h
        cases h
        exact .inr ⟨_, revision, .evicted other candidate habsent hcandidate, rfl, haccept⟩

theorem MakesRoom.spec {roomy : LatestWinsQueue K V} (h : queue.Sound)
    (hroom : queue.MakesRoom key roomy) : (roomy.SoundOn fun k => k ≠ key) ∧
      roomy.queued.lookup key = none ∧ roomy.queued.keys.length < roomy.capacity := by
  cases hroom with
  | free absent room => exact ⟨h.mono fun _ _ => trivial, absent, room⟩
  | replaced previous present =>
    exact ⟨(h.depart present .replaced).mono fun _ hne => ⟨trivial, hne⟩,
      (lookup_erase ..).trans (if_pos rfl), h.room_of_departed present⟩
  | evicted other candidate absent present =>
    refine ⟨(h.evict present).mono fun _ _ => trivial, ?_, ?_⟩ <;> rw [h.evict_eq present]
    · have hlookup := lookup_erase queue.queued other key
      rw [absent, ite_self] at hlookup
      exact hlookup
    · exact h.room_of_departed present

theorem SoundOn.schedule (h : queue.Sound)
    (hschedule : queue.schedule key priority value = some (outcome, next)) : next.Sound := by
  rcases schedule_cases hschedule with ⟨-, rfl⟩ | ⟨roomy, revision, hroom, -, haccept⟩
  · exact h
  · obtain ⟨hroomy, -, hlength⟩ := hroom.spec h
    exact hroomy.accept hlength haccept

/-- Every accepted demand is pending or has departed, and none twice. -/
structure Conserves (accepted : List Nat) (queue : LatestWinsQueue K V) : Prop where
  distinct : accepted.Nodup
  allocated : ∀ revision ∈ accepted, revision < queue.nextRevision
  balance : accepted.Perm (queue.departed.map (·.1) ++ queue.queued.entries.map (·.2.revision))

namespace Conserves

variable {accepted : List Nat} {queue next : LatestWinsQueue K V}

theorem depart (h : queue.Conserves accepted) (hq : queue.queued.lookup key = some q)
    (departure : Departure) : (queue.depart key q departure).Conserves accepted where
  distinct := h.distinct
  allocated := h.allocated
  balance := by
    refine h.balance.trans ?_
    have hentries := (entries_perm_erase hq).map (·.2.revision)
    show List.Perm _ ((queue.departed ++ [(q.revision, departure)]).map (·.1) ++
      (queue.queued.erase key).entries.map (·.2.revision))
    rw [map_append, append_assoc]
    exact hentries.append_left _

omit [DecidableEq K] in
theorem of_same (h : queue.Conserves accepted) (hrevision : next.nextRevision = queue.nextRevision)
    (hdeparted : next.departed = queue.departed) (hqueued : next.queued = queue.queued) :
    next.Conserves accepted where
  distinct := h.distinct
  allocated := by rw [hrevision]; exact h.allocated
  balance := by rw [hdeparted, hqueued]; exact h.balance

section

variable (h : queue.Conserves accepted)

include h

theorem makesRoom (hsound : queue.Sound)
    (hroom : queue.MakesRoom key next) : next.Conserves accepted := by
  cases hroom with
  | free => exact h
  | replaced previous present => exact (h.depart present .replaced).of_same rfl rfl rfl
  | evicted other candidate absent present =>
    rw [hsound.evict_eq present]
    exact (h.depart present .evicted).of_same rfl rfl rfl

theorem accept (habsent : queue.queued.lookup key = none)
    (haccept : queue.accept key priority value = some (revision, next)) :
    next.Conserves (accepted ++ [revision]) := by
  obtain ⟨rfl, -, -, hnext, hqueued, -, -, -, -, hdeparted⟩ := SoundOn.accept_eq_some haccept
  refine ⟨?_, ?_, ?_⟩
  · refine nodup_append.mpr ⟨h.distinct, nodup_singleton _, ?_⟩
    intro revision hmem other hother
    obtain rfl := mem_singleton.mp hother
    exact Nat.ne_of_lt (h.allocated revision hmem)
  · intro revision hmem
    rw [hnext]
    rcases mem_append.mp hmem with hmem | hmem
    · exact Nat.lt_succ_of_lt (h.allocated revision hmem)
    · obtain rfl := mem_singleton.mp hmem
      exact Nat.lt_succ_self _
  · rw [hdeparted, hqueued, entries_insert_of_lookup _ habsent, map_cons]
    refine (h.balance.append_right _).trans ?_
    rw [append_assoc]
    exact perm_append_comm.append_left _

theorem schedule (hsound : queue.Sound)
    (hschedule : queue.schedule key priority value = some (outcome, next)) :
    next.Conserves (accepted ++ outcome.revision.toList) := by
  rcases schedule_cases hschedule with ⟨hrevision, rfl⟩ |
    ⟨roomy, revision, hroom, hrevision, haccept⟩ <;> rw [hrevision]
  · exact (append_nil accepted).symm ▸ h
  · obtain ⟨-, habsent, -⟩ := hroom.spec hsound
    exact (h.makesRoom hsound hroom).accept habsent haccept

theorem popNext : queue.popNext.2.Conserves accepted := by
  rcases SoundOn.popNext_cases queue with heq | ⟨key, q, hq, -, -, heq⟩ <;> rw [heq]
  · exact h
  · exact (h.depart hq .popped).of_same rfl rfl rfl

theorem finish (demand : ScheduledDemand K V) : (queue.finish demand).2.Conserves accepted := by
  unfold LatestWinsQueue.finish
  split
  · exact h
  · dsimp only
    split <;> exact h.of_same rfl rfl rfl

theorem cancelInFlight (key : K) : (queue.cancelInFlight key).Conserves accepted := by
  unfold LatestWinsQueue.cancelInFlight
  split
  · exact h
  · exact h.of_same rfl rfl rfl

theorem cancel (key : K) : (queue.cancel key).2.Conserves accepted := by
  unfold LatestWinsQueue.cancel
  have hforgotten : { queue with latest := queue.latest.erase key }.Conserves accepted :=
    h.of_same rfl rfl rfl
  have hcancelled := hforgotten.cancelInFlight key
  dsimp only
  split
  · exact hcancelled
  · rename_i q hq
    exact (hcancelled.depart hq .cancelled).of_same rfl rfl rfl

end

omit [DecidableEq K] in
theorem clearPending (h : queue.Conserves accepted) : queue.clearPending.2.Conserves accepted where
  distinct := h.distinct
  allocated := h.allocated
  balance := by
    refine h.balance.trans (List.Perm.of_eq ?_)
    simp [LatestWinsQueue.clearPending]

end Conserves

end LatestWinsQueue

end KeyReader.Runtime
