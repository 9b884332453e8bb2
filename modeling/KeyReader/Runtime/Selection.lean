import KeyReader.Runtime.QueueRuns

/-! Which demand the scheduler takes, and which one it evicts or rejects when it is full. -/

namespace KeyReader.Runtime

open Option Table

/-- A pending demand as the scheduler hands it out. -/
def Queued.demand {K V : Type} (key : K) (queued : Queued V) : ScheduledDemand K V :=
  { key, revision := queued.revision, priority := queued.priority, value := queued.value
    cancellation := queued.cancellation }

namespace LatestWinsQueue

variable {K V : Type} [DecidableEq K]

/-- The order of demands: by priority, and by recency among equal priorities. -/
def demandRank (demand : ScheduledDemand K V) : Lex (Nat × Nat) :=
  toLex (demand.priority, demand.revision)

def Pends (queue : LatestWinsQueue K V) (demand : ScheduledDemand K V) : Prop :=
  ∃ queued, queue.queued.lookup demand.key = some queued ∧ queued.demand demand.key = demand

def Waits (queue : LatestWinsQueue K V) (demand : ScheduledDemand K V) : Prop :=
  queue.Pends demand ∧ queue.inFlight.lookup demand.key = none

structure Greatest (queue : LatestWinsQueue K V) (demand : ScheduledDemand K V) : Prop where
  waits : queue.Waits demand
  above : ∀ other, queue.Waits other → demandRank other ≤ demandRank demand

structure Least (queue : LatestWinsQueue K V) (demand : ScheduledDemand K V) : Prop where
  pends : queue.Pends demand
  below : ∀ other, queue.Pends other → demandRank demand ≤ demandRank other

/-- There is no room for another key. -/
def Full (queue : LatestWinsQueue K V) : Prop := queue.capacity ≤ queue.queued.keys.length

variable {key : K} {queue : LatestWinsQueue K V}

theorem pends_demand {queued : Queued V} (h : queue.queued.lookup key = some queued) :
    queue.Pends (queued.demand key) :=
  ⟨queued, h, rfl⟩

variable {demand other : ScheduledDemand K V}

theorem Pends.eq_of_rank (h : queue.Sound) (hdemand : queue.Pends demand)
    (hother : queue.Pends other) (hrank : demandRank demand = demandRank other) :
    demand = other := by
  obtain ⟨q, hq, heq⟩ := hdemand
  obtain ⟨q', hq', heq'⟩ := hother
  have hrevision : demand.revision = other.revision := congrArg (fun rank => (ofLex rank).2) hrank
  rw [← heq, ← heq'] at hrevision
  have hkey := h.queuedUnique _ q _ q' hq hq' hrevision
  rw [← hkey] at hq'
  cases hq.symm.trans hq'
  rw [← heq, ← heq', hkey]

theorem Greatest.unique (h : queue.Sound) (hdemand : queue.Greatest demand)
    (hother : queue.Greatest other) : demand = other :=
  hdemand.waits.1.eq_of_rank h hother.waits.1
    (le_antisymm (hother.above demand hdemand.waits) (hdemand.above other hother.waits))

theorem popNext_spec (queue : LatestWinsQueue K V) :
    (∃ demand, queue.popNext.1 = some demand ∧ queue.inFlight.keys.length < queue.maxInFlight ∧
      queue.Greatest demand) ∨
    (queue.popNext.1 = none ∧
      (queue.maxInFlight ≤ queue.inFlight.keys.length ∨ ∀ demand, ¬queue.Waits demand)) := by
  unfold popNext
  split
  · rename_i hfull
    exact .inr ⟨rfl, .inl hfull⟩
  rename_i hroom
  split
  · rename_i hnone
    refine .inr ⟨rfl, .inr ?_⟩
    rintro demand ⟨⟨q, hq, -⟩, hfree⟩
    exact highest_eq_none.mp hnone demand.key q hq (isNone_iff_eq_none.mpr hfree)
  rename_i key hkey
  obtain ⟨q, hq, hfree, habove⟩ := highest_eq_some hkey
  rw [hq]
  refine .inl ⟨q.demand key, rfl, Nat.lt_of_not_le hroom,
    ⟨pends_demand hq, isNone_iff_eq_none.mp hfree⟩, ?_⟩
  rintro other ⟨⟨q', hq', heq⟩, hother⟩
  rw [← heq]
  exact habove other.key q' hq' (isNone_iff_eq_none.mpr hother)

/-- How a call of `schedule` ends. -/
inductive Scheduled (queue : LatestWinsQueue K V) (key : K) (priority : Nat) (value : V) :
    ScheduleOutcome K V → Prop
  | rejected (full : queue.Full) (absent : queue.queued.lookup key = none)
      (below : ∀ demand, queue.Pends demand → priority < demand.priority) :
      Scheduled queue key priority value (.rejected value)
  | replaced (previous : Queued V) (present : queue.queued.lookup key = some previous) :
      Scheduled queue key priority value (.replaced queue.nextRevision previous.value)
  | queued (room : ¬queue.Full) (absent : queue.queued.lookup key = none) :
      Scheduled queue key priority value (.queued queue.nextRevision)
  | evicted (demand : ScheduledDemand K V) (full : queue.Full)
      (absent : queue.queued.lookup key = none) (least : queue.Least demand)
      (reached : demand.priority ≤ priority) :
      Scheduled queue key priority value (.evicted queue.nextRevision demand)

omit [DecidableEq K] in
theorem priority_le_of_rank (h : demandRank demand ≤ demandRank other) :
    demand.priority ≤ other.priority := by
  rcases Prod.Lex.toLex_le_toLex.mp h with h | ⟨h, -⟩ <;> exact h.le

theorem nextRevision_of_makesRoom {roomy : LatestWinsQueue K V} (h : queue.Sound)
    (hroom : queue.MakesRoom key roomy) : roomy.nextRevision = queue.nextRevision := by
  cases hroom with
  | free | replaced => rfl
  | evicted other candidate absent present => rw [h.evict_eq present]; rfl

theorem least_of_lowest {queued : Queued V}
    (h : lowest (fun _ => true) rank queue.queued = some key)
    (hqueued : queue.queued.lookup key = some queued) : queue.Least (queued.demand key) := by
  obtain ⟨found, hfound, -, hbelow⟩ := lowest_eq_some h
  cases hqueued.symm.trans hfound
  refine ⟨pends_demand hqueued, ?_⟩
  rintro demand ⟨q, hq, heq⟩
  rw [← heq]
  exact hbelow demand.key q hq rfl

theorem schedule_spec {next : LatestWinsQueue K V} (h : queue.Sound) {priority : Nat} {value : V}
    {outcome : ScheduleOutcome K V}
    (hschedule : queue.schedule key priority value = some (outcome, next)) :
    queue.Scheduled key priority value outcome := by
  have hrevision : ∀ {roomy accepted : LatestWinsQueue K V} {revision : Nat},
      queue.MakesRoom key roomy → roomy.accept key priority value = some (revision, accepted) →
        revision = queue.nextRevision := by
    intro roomy accepted revision hroom haccept
    rw [(SoundOn.accept_eq_some haccept).1, nextRevision_of_makesRoom h hroom]
  unfold schedule at hschedule
  split at hschedule
  · rename_i hcapacity
    obtain ⟨rfl, -⟩ := Prod.mk.inj (some.inj hschedule)
    -- a queue without capacity holds nothing
    have hnone : ∀ other, queue.queued.lookup other = none := by
      intro other
      have hkeys := List.eq_nil_of_length_eq_zero (Nat.le_zero.mp (hcapacity ▸ h.bounded))
      refine AList.lookup_eq_none.mpr fun hmem => ?_
      rw [AList.mem_keys, hkeys] at hmem
      cases hmem
    refine .rejected (Nat.le_trans hcapacity.le (Nat.zero_le _)) (hnone key) ?_
    rintro demand ⟨q, hq, -⟩
    cases (hnone demand.key).symm.trans hq
  split at hschedule
  · rename_i previous hprevious
    obtain ⟨⟨revision, accepted⟩, haccept, heq⟩ := bind_eq_some_iff.mp hschedule
    obtain ⟨rfl, -⟩ := Prod.mk.inj (some.inj heq)
    rw [hrevision (.replaced previous hprevious) haccept]
    exact .replaced previous hprevious
  rename_i habsent
  split at hschedule
  · rename_i hroom
    obtain ⟨⟨revision, accepted⟩, haccept, heq⟩ := bind_eq_some_iff.mp hschedule
    obtain ⟨rfl, -⟩ := Prod.mk.inj (some.inj heq)
    rw [hrevision (.free habsent hroom) haccept]
    exact .queued (Nat.not_le.mpr hroom) habsent
  rename_i hfull
  obtain ⟨other, hother, hschedule⟩ := bind_eq_some_iff.mp hschedule
  obtain ⟨candidate, hcandidate, hschedule⟩ := bind_eq_some_iff.mp hschedule
  have hleast := least_of_lowest hother hcandidate
  split at hschedule
  · rename_i hlower
    obtain ⟨rfl, -⟩ := Prod.mk.inj (some.inj hschedule)
    refine .rejected (Nat.not_lt.mp hfull) habsent fun demand hdemand => ?_
    exact Nat.lt_of_lt_of_le hlower (priority_le_of_rank (hleast.below demand hdemand))
  · rename_i hreached
    obtain ⟨⟨revision, accepted⟩, haccept, heq⟩ := bind_eq_some_iff.mp hschedule
    obtain ⟨rfl, -⟩ := Prod.mk.inj (some.inj heq)
    rw [hrevision (.evicted other candidate habsent hcandidate) haccept]
    exact .evicted (candidate.demand other) (Nat.not_lt.mp hfull) habsent hleast
      (Nat.not_lt.mp hreached)

structure Decides (queue : LatestWinsQueue K V) (key : K) (priority : Nat) (value : V)
    (outcome : ScheduleOutcome K V) : Prop where
  rejects : outcome = .rejected value ↔ queue.Full ∧ queue.queued.lookup key = none ∧
    ∀ demand, queue.Pends demand → priority < demand.priority
  evicts : ∀ demand, outcome = .evicted queue.nextRevision demand ↔ queue.Full ∧
    queue.queued.lookup key = none ∧ queue.Least demand ∧ demand.priority ≤ priority
  replaces : (∃ previous, outcome = .replaced queue.nextRevision previous) ↔
    queue.queued.lookup key ≠ none

theorem Scheduled.decides (h : queue.Sound) {priority : Nat} {value : V}
    {outcome : ScheduleOutcome K V} (hcase : queue.Scheduled key priority value outcome) :
    queue.Decides key priority value outcome := by
  cases hcase with
  | rejected full absent below =>
    refine ⟨iff_of_true rfl ⟨full, absent, below⟩, fun demand => iff_of_false nofun ?_,
      iff_of_false nofun (not_not.mpr absent)⟩
    rintro ⟨-, -, least, reached⟩
    exact absurd (below demand least.pends) (Nat.not_lt.mpr reached)
  | replaced previous present =>
    refine ⟨iff_of_false nofun ?_, fun demand => iff_of_false nofun ?_,
      iff_of_true ⟨_, rfl⟩ (by rw [present]; nofun)⟩
    · rintro ⟨-, absent, -⟩
      cases present.symm.trans absent
    · rintro ⟨-, absent, -⟩
      cases present.symm.trans absent
  | queued room absent =>
    exact ⟨iff_of_false nofun fun hfull => room hfull.1,
      fun demand => iff_of_false nofun fun hfull => room hfull.1,
      iff_of_false nofun (not_not.mpr absent)⟩
  | evicted found full absent least reached =>
    refine ⟨iff_of_false nofun ?_, fun demand => ⟨?_, ?_⟩, iff_of_false nofun (not_not.mpr absent)⟩
    · rintro ⟨-, -, below⟩
      exact absurd (below found least.pends) (Nat.not_lt.mpr reached)
    · intro heq
      injection heq with _ heq
      exact heq ▸ ⟨full, absent, least, reached⟩
    · rintro ⟨-, -, hleast, -⟩
      rw [least.pends.eq_of_rank h hleast.pends
        (le_antisymm (least.below demand hleast.pends) (hleast.below found least.pends))]

theorem popNext_eq_some_iff (h : queue.Sound) : queue.popNext.1 = some demand ↔
      queue.inFlight.keys.length < queue.maxInFlight ∧ queue.Greatest demand := by
  rcases popNext_spec queue with ⟨found, hfound, hroom, hgreatest⟩ | ⟨hnone, hwhy⟩
  · rw [hfound, Option.some.injEq]
    exact ⟨fun heq => heq ▸ ⟨hroom, hgreatest⟩, fun ⟨_, hother⟩ => hgreatest.unique h hother⟩
  · rw [hnone]
    refine iff_of_false nofun ?_
    rintro ⟨hroom, hgreatest⟩
    rcases hwhy with hfull | hidle
    · exact absurd hroom (Nat.not_lt.mpr hfull)
    · exact hidle demand hgreatest.waits

theorem popNext_eq_none_iff (queue : LatestWinsQueue K V) : queue.popNext.1 = none ↔
    queue.maxInFlight ≤ queue.inFlight.keys.length ∨ ∀ demand, ¬queue.Waits demand := by
  rcases popNext_spec queue with ⟨found, hfound, hroom, hgreatest⟩ | ⟨hnone, hwhy⟩
  · rw [hfound]
    refine iff_of_false nofun ?_
    rintro (hfull | hidle)
    · exact absurd hroom (Nat.not_lt.mpr hfull)
    · exact hidle found hgreatest.waits
  · exact iff_of_true hnone hwhy

end LatestWinsQueue

namespace QueueRun

variable {K V : Type} [DecidableEq K]

theorem accepted_step {capacity maxInFlight : Nat} {run next : QueueRun K V}
    {event : QueueEvent K V} (h : run.Sound capacity maxInFlight)
    (hordered : run.accepted.Pairwise (· < ·)) (hstep : run.step event = some next) :
    next.accepted.Pairwise (· < ·) := by
  cases event with
  | schedule key priority value =>
    obtain ⟨⟨outcome, queue⟩, hschedule, rfl⟩ := map_eq_some_iff.mp hstep
    have hrevision : ∀ revision ∈ outcome.revision.toList, revision = run.queue.nextRevision := by
      intro revision hmem
      cases LatestWinsQueue.schedule_spec h.queue hschedule with
      | rejected => cases hmem
      | replaced | queued | evicted => exact List.mem_singleton.mp hmem
    refine List.pairwise_append.mpr ⟨hordered, ?_, fun earlier hearlier revision hmem => ?_⟩
    · cases outcome.revision <;> simp
    · rw [hrevision revision hmem]
      exact h.conserves.allocated earlier hearlier
  | popNext | finish demand | cancel key | clearPending => exact some.inj hstep ▸ hordered

/-- The scheduler after any calls: it takes exactly the greatest demand whose key is not in flight, by
priority and by recency, and a demand for a new key evicts the least pending one when the queue is
full, unless its priority is lower than all that are pending. -/
theorem run_selects {capacity maxInFlight : Nat} {queue : LatestWinsQueue K V}
    (hqueue : LatestWinsQueue.withMaxInFlight capacity maxInFlight = some queue)
    {events : List (QueueEvent K V)} {run : QueueRun K V}
    (hrun : Transition.run step (start queue) events = some run) :
    run.queue.capacity = capacity ∧ run.accepted.Pairwise (· < ·) ∧
      (∀ demand, run.queue.popNext.1 = some demand ↔
        run.queue.inFlight.keys.length < maxInFlight ∧ run.queue.Greatest demand) ∧
      (run.queue.popNext.1 = none ↔ maxInFlight ≤ run.queue.inFlight.keys.length ∨
        ∀ demand, ¬run.queue.Waits demand) ∧
      ∀ key priority value outcome next,
        run.queue.schedule key priority value = some (outcome, next) →
          run.queue.Decides key priority value outcome := by
  have h := (Sound.of_start hqueue).run hrun
  have hordered := Transition.run_preserves
    (I := fun run => run.Sound capacity maxInFlight ∧ run.accepted.Pairwise (· < ·))
    (fun _ _ _ h _ hstep => ⟨h.1.step hstep, accepted_step h.1 h.2 hstep⟩)
    ⟨Sound.of_start hqueue, List.Pairwise.nil⟩
    (Transition.Along.of_forall (fun _ _ => trivial) (start queue) events) hrun
  obtain ⟨hcapacity, hmax⟩ := h.limits
  refine ⟨hcapacity, hordered.2, fun demand => ?_, ?_, ?_⟩
  · rw [← hmax]
    exact LatestWinsQueue.popNext_eq_some_iff h.queue
  · rw [← hmax]
    exact LatestWinsQueue.popNext_eq_none_iff run.queue
  · intro key priority value outcome next hschedule
    exact (LatestWinsQueue.schedule_spec h.queue hschedule).decides h.queue

/-- A queue with room for one demand, which is pending. -/
def onePending : Option (QueueRun Nat Nat) :=
  (LatestWinsQueue.withMaxInFlight 1 1).bind fun queue =>
    Transition.run step (start queue) [.schedule 7 1 10]

theorem run_selects_onePending : ∃ run, onePending = some run ∧
    ∃ demand, demand.key = 7 ∧ run.queue.Greatest demand := by
  obtain ⟨run, hrun⟩ := isSome_iff_exists.mp (show onePending.isSome by decide +kernel)
  have htaken : onePending.all fun run => run.queue.popNext.1.any (·.key = 7) := by
    decide +kernel
  rw [hrun, all_some, any_eq_true] at htaken
  obtain ⟨demand, hdemand, hkey⟩ := htaken
  obtain ⟨queue, hqueue, hrun'⟩ := bind_eq_some_iff.mp hrun
  obtain ⟨-, -, htakes, -⟩ := run_selects hqueue hrun'
  exact ⟨run, hrun, demand, of_decide_eq_true hkey, ((htakes demand).mp hdemand).2⟩

/-- The full queue takes a newer demand for the key that it holds, and evicts none. -/
theorem onePending_not_evicted : ∃ run, onePending = some run ∧ run.queue.Full ∧
    (∃ least, run.queue.Least least ∧ least.priority ≤ 1) ∧
    ∃ outcome next, run.queue.schedule 7 1 11 = some (outcome, next) ∧
      ∀ revision evicted, outcome ≠ .evicted revision evicted := by
  obtain ⟨run, hrun⟩ := isSome_iff_exists.mp (show onePending.isSome by decide +kernel)
  have hfacts : onePending.all fun run => run.queue.capacity ≤ run.queue.queued.keys.length &&
      lowest (fun _ => true) LatestWinsQueue.rank run.queue.queued = some 7 &&
      (run.queue.queued.lookup 7).any (·.priority ≤ 1) &&
      (run.queue.schedule 7 1 11).any fun called =>
        match called.1 with
        | .evicted _ _ => false
        | _ => true := by
    decide +kernel
  rw [hrun, all_some] at hfacts
  simp only [Bool.and_eq_true, decide_eq_true_eq, any_eq_true] at hfacts
  obtain ⟨⟨⟨hfull, hlowest⟩, queued, hqueued, hpriority⟩, ⟨outcome, next⟩, hschedule, hother⟩ :=
    hfacts
  refine ⟨run, hrun, hfull, ⟨_, LatestWinsQueue.least_of_lowest hlowest hqueued, hpriority⟩,
    outcome, next, hschedule, ?_⟩
  rintro revision evicted rfl
  cases hother

end QueueRun

end KeyReader.Runtime
