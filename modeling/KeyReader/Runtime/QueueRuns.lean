import KeyReader.Runtime.LatestWins

/-! Runs of the scheduler with a caller that holds the demands it took. -/

namespace KeyReader.Runtime

open List Table

inductive QueueEvent (K V : Type)
  | schedule (key : K) (priority : Nat) (value : V)
  | popNext
  | finish (demand : ScheduledDemand K V)
  | cancel (key : K)
  | clearPending

/-- The scheduler, the demands that were taken and not finished, and the revisions of the demands
that were accepted. -/
structure QueueRun (K V : Type) where
  queue : LatestWinsQueue K V
  taken : List (ScheduledDemand K V)
  accepted : List Nat

namespace QueueRun

variable {K V : Type}

def start (queue : LatestWinsQueue K V) : QueueRun K V := ⟨queue, [], []⟩

variable [DecidableEq K]

/-- One call.  A call that panics ends the run. -/
def step (run : QueueRun K V) : QueueEvent K V → Option (QueueRun K V)
  | .schedule key priority value =>
    (run.queue.schedule key priority value).map fun (outcome, queue) =>
      { run with queue, accepted := run.accepted ++ outcome.revision.toList }
  | .popNext =>
    let (demand, queue) := run.queue.popNext
    some { run with queue, taken := run.taken ++ demand.toList }
  | .finish demand =>
    let (disposition, queue) := run.queue.finish demand
    some { run with
      queue
      taken := if disposition = .unknown then run.taken
        else run.taken.filter fun taken => taken.key ≠ demand.key }
  | .cancel key => some { run with queue := (run.queue.cancel key).2 }
  | .clearPending => some { run with queue := run.queue.clearPending.2 }

structure Holds (taken : List (ScheduledDemand K V)) (queue : LatestWinsQueue K V) : Prop where
  keys : (taken.map (·.key)).Nodup
  running : ∀ demand ∈ taken, queue.inFlight.lookup demand.key =
    some { revision := demand.revision, cancellation := demand.cancellation }
  covers : ∀ key f, queue.inFlight.lookup key = some f →
    ∃ demand ∈ taken, demand.key = key ∧ demand.revision = f.revision

namespace Holds

variable {taken : List (ScheduledDemand K V)} {queue next : LatestWinsQueue K V}

theorem of_same (h : Holds taken queue) (hinFlight : next.inFlight = queue.inFlight) :
    Holds taken next where
  keys := h.keys
  running := by rw [hinFlight]; exact h.running
  covers := by rw [hinFlight]; exact h.covers

theorem length_le (h : Holds taken queue) : taken.length ≤ queue.inFlight.keys.length := by
  have hsub : taken.map (·.key) ⊆ queue.inFlight.keys := by
    intro key hmem
    obtain ⟨demand, hdemand, rfl⟩ := mem_map.mp hmem
    exact AList.mem_keys.mp (mem_of_lookup (h.running demand hdemand))
  have hle := (subperm_of_subset h.keys hsub).length_le
  rwa [length_map] at hle

theorem cancelInFlight (key : K) : (queue.cancelInFlight key).inFlight = queue.inFlight := by
  unfold LatestWinsQueue.cancelInFlight
  split <;> rfl

section

variable (h : Holds taken queue)

include h

theorem schedule (hsound : queue.Sound) {key : K} {priority : Nat} {value : V}
    {outcome : ScheduleOutcome K V}
    (hschedule : queue.schedule key priority value = some (outcome, next)) : Holds taken next := by
  rcases LatestWinsQueue.schedule_cases hschedule with ⟨-, rfl⟩ |
    ⟨roomy, revision, hroom, -, haccept⟩
  · exact h
  · obtain ⟨-, -, -, -, -, hinFlight, -⟩ := LatestWinsQueue.SoundOn.accept_eq_some haccept
    apply h.of_same
    rw [hinFlight]
    cases hroom with
    | free | replaced => rfl
    | evicted other candidate absent present => rw [hsound.evict_eq present]; rfl

theorem popNext : Holds (taken ++ queue.popNext.1.toList) queue.popNext.2 := by
  rcases LatestWinsQueue.SoundOn.popNext_cases queue with heq | ⟨key, q, -, hfree, -, heq⟩ <;>
    rw [heq]
  · exact (append_nil taken).symm ▸ h
  have hne : ∀ demand ∈ taken, demand.key ≠ key := by
    rintro demand hdemand rfl
    cases hfree.symm.trans (h.running demand hdemand)
  refine ⟨?_, ?_, ?_⟩
  · rw [map_append]
    refine nodup_append.mpr ⟨h.keys, nodup_singleton _, ?_⟩
    intro other hother found hfound
    obtain ⟨demand, hdemand, rfl⟩ := mem_map.mp hother
    obtain rfl := mem_singleton.mp hfound
    exact hne demand hdemand
  · intro demand hdemand
    refine (lookup_insert ..).trans ?_
    rcases mem_append.mp hdemand with hdemand | hdemand
    · rw [if_neg (hne demand hdemand), h.running demand hdemand]
    · obtain rfl := mem_singleton.mp hdemand
      exact if_pos rfl
  · intro other f hf
    replace hf := (lookup_insert ..).symm.trans hf
    split at hf
    · rename_i heq
      cases hf
      exact ⟨_, mem_concat_self, heq.symm, rfl⟩
    · obtain ⟨demand, hdemand, hkey⟩ := h.covers other f hf
      exact ⟨demand, mem_append_left _ hdemand, hkey⟩

theorem finish (demand : ScheduledDemand K V) :
    Holds (if (queue.finish demand).1 = .unknown then taken
      else taken.filter fun other => other.key ≠ demand.key) (queue.finish demand).2 := by
  by_cases hknown : ∃ f, queue.inFlight.lookup demand.key = some f ∧ f.revision = demand.revision
  case neg =>
    rw [LatestWinsQueue.SoundOn.finish_of_unknown fun f hf hrevision =>
      hknown ⟨f, hf, hrevision⟩]
    exact h
  obtain ⟨f, hf, hrevision⟩ := hknown
  have heq := LatestWinsQueue.SoundOn.finish_of_inFlight hf hrevision
  have hinFlight : (queue.finish demand).2.inFlight = queue.inFlight.erase demand.key := by
    rw [heq]
    split <;> rfl
  have hdisposition : (queue.finish demand).1 ≠ .unknown := by
    rw [heq]
    split <;> nofun
  rw [if_neg hdisposition]
  refine ⟨h.keys.sublist (filter_sublist.map _), ?_, ?_⟩
  · intro other hother
    obtain ⟨hmem, hne⟩ := mem_filter.mp hother
    rw [hinFlight, lookup_erase, if_neg (of_decide_eq_true hne), h.running other hmem]
  · intro key f' hf'
    rw [hinFlight] at hf'
    obtain ⟨hne, hf'⟩ := of_lookup_erase hf'
    obtain ⟨other, hother, rfl, hother'⟩ := h.covers key f' hf'
    exact ⟨other, mem_filter.mpr ⟨hother, decide_eq_true hne⟩, rfl, hother'⟩

theorem cancel (key : K) : Holds taken (queue.cancel key).2 := by
  apply h.of_same
  unfold LatestWinsQueue.cancel
  dsimp only
  split <;> exact cancelInFlight key

end

end Holds

/-- What holds of every run of a scheduler with the two limits. -/
structure Sound (capacity maxInFlight : Nat) (run : QueueRun K V) : Prop where
  queue : run.queue.Sound
  limits : run.queue.capacity = capacity ∧ run.queue.maxInFlight = maxInFlight
  holds : Holds run.taken run.queue
  conserves : run.queue.Conserves run.accepted

namespace Sound

variable {capacity maxInFlight : Nat}

theorem of_start {queue : LatestWinsQueue K V}
    (h : LatestWinsQueue.withMaxInFlight capacity maxInFlight = some queue) :
    (start queue).Sound capacity maxInFlight := by
  have hsound := LatestWinsQueue.sound_withMaxInFlight h
  unfold LatestWinsQueue.withMaxInFlight at h
  split at h
  · cases h
  · cases h
    exact ⟨hsound, ⟨rfl, rfl⟩, ⟨nodup_nil, nofun, nofun⟩, ⟨nodup_nil, nofun, .nil⟩⟩

/-- No call changes the limits. -/
theorem limits_step {run next : QueueRun K V} {event : QueueEvent K V} (h : run.queue.Sound)
    (hstep : run.step event = some next) : next.queue.capacity = run.queue.capacity ∧
      next.queue.maxInFlight = run.queue.maxInFlight := by
  cases event with
  | schedule key priority value =>
    obtain ⟨⟨outcome, queue⟩, hschedule, rfl⟩ := Option.map_eq_some_iff.mp hstep
    rcases LatestWinsQueue.schedule_cases hschedule with ⟨-, rfl⟩ |
      ⟨roomy, revision, hroom, -, haccept⟩
    · exact ⟨rfl, rfl⟩
    · obtain ⟨-, hcapacity, hmax, -⟩ := LatestWinsQueue.SoundOn.accept_eq_some haccept
      show queue.capacity = _ ∧ queue.maxInFlight = _
      rw [hcapacity, hmax]
      cases hroom with
      | free | replaced => exact ⟨rfl, rfl⟩
      | evicted other candidate absent present =>
        rw [h.evict_eq present]
        exact ⟨rfl, rfl⟩
  | popNext =>
    cases hstep
    show run.queue.popNext.2.capacity = _ ∧ run.queue.popNext.2.maxInFlight = _
    rcases LatestWinsQueue.SoundOn.popNext_cases run.queue with heq | ⟨key, q, -, -, -, heq⟩ <;>
      rw [heq] <;> exact ⟨rfl, rfl⟩
  | finish demand =>
    cases hstep
    show (run.queue.finish demand).2.capacity = _ ∧ (run.queue.finish demand).2.maxInFlight = _
    unfold LatestWinsQueue.finish
    split
    · exact ⟨rfl, rfl⟩
    · dsimp only
      split <;> exact ⟨rfl, rfl⟩
  | cancel key =>
    cases hstep
    unfold LatestWinsQueue.cancel LatestWinsQueue.cancelInFlight
    dsimp only
    split <;> split <;> exact ⟨rfl, rfl⟩
  | clearPending =>
    cases hstep
    exact ⟨rfl, rfl⟩

theorem step {run next : QueueRun K V} {event : QueueEvent K V} (h : run.Sound capacity maxInFlight)
    (hstep : run.step event = some next) :
    next.Sound capacity maxInFlight := by
  obtain ⟨hcapacity, hmax⟩ := limits_step h.queue hstep
  have hlimits := And.intro (hcapacity.trans h.limits.1) (hmax.trans h.limits.2)
  cases event with
  | schedule key priority value =>
    obtain ⟨⟨outcome, queue⟩, hschedule, rfl⟩ := Option.map_eq_some_iff.mp hstep
    exact ⟨h.queue.schedule hschedule, hlimits, h.holds.schedule h.queue hschedule,
      h.conserves.schedule h.queue hschedule⟩
  | popNext =>
    cases hstep
    exact ⟨h.queue.popNext, hlimits, h.holds.popNext, h.conserves.popNext⟩
  | finish demand =>
    cases hstep
    exact ⟨h.queue.finish demand, hlimits, h.holds.finish demand, h.conserves.finish demand⟩
  | cancel key =>
    cases hstep
    exact ⟨h.queue.cancel key, hlimits, h.holds.cancel key, h.conserves.cancel key⟩
  | clearPending =>
    cases hstep
    exact ⟨h.queue.clearPending, hlimits, h.holds.of_same rfl, h.conserves.clearPending⟩

theorem run {run next : QueueRun K V} {events : List (QueueEvent K V)}
    (h : run.Sound capacity maxInFlight)
    (hrun : Transition.run QueueRun.step run events = some next) :
    next.Sound capacity maxInFlight :=
  Transition.run_preserves (fun _ _ _ h _ hstep => h.step hstep) h
    (Transition.Along.of_forall (fun _ _ => trivial) run events) hrun

theorem finish_taken {run : QueueRun K V} (h : run.Sound capacity maxInFlight)
    {demand : ScheduledDemand K V} (hmem : demand ∈ run.taken) : (run.queue.finish demand).1 =
      if demand.cancellation ∈ run.queue.cancellations.cancelled then .stale else .publish :=
  h.queue.finish_disposition (h.holds.running demand hmem) rfl

theorem finish_other {run : QueueRun K V} (h : run.Sound capacity maxInFlight)
    {demand : ScheduledDemand K V}
    (hother : ∀ taken ∈ run.taken, taken.key = demand.key → taken.revision ≠ demand.revision) :
    run.queue.finish demand = (.unknown, run.queue) := by
  refine LatestWinsQueue.SoundOn.finish_of_unknown fun f hf hrevision => ?_
  obtain ⟨taken, hmem, hkey, heq⟩ := h.holds.covers demand.key f hf
  exact hother taken hmem hkey (heq.trans hrevision)

end Sound

/-- The scheduler after any calls: its limits hold, one demand of a key is in flight at most, the
latest revision of a key belongs to a demand that is pending or in flight, the end of a demand is
published exactly when the scheduler did not cancel it, and every accepted demand is either pending
or has departed, once. -/
theorem run_sound {capacity maxInFlight : Nat} {queue : LatestWinsQueue K V}
    (hqueue : LatestWinsQueue.withMaxInFlight capacity maxInFlight = some queue)
    {events : List (QueueEvent K V)} {run : QueueRun K V}
    (hrun : Transition.run step (start queue) events = some run) :
    run.queue.queued.keys.length ≤ capacity ∧ run.queue.inFlight.keys.length ≤ maxInFlight ∧
      run.taken.length ≤ maxInFlight ∧ (run.taken.map (·.key)).Nodup ∧
      (∀ key revision, run.queue.latest.lookup key = some revision →
        (∃ queued, run.queue.queued.lookup key = some queued ∧ queued.revision = revision) ∨
          ∃ demand ∈ run.taken, demand.key = key ∧ demand.revision = revision) ∧
      (∀ demand ∈ run.taken, (run.queue.finish demand).1 =
        if run.queue.cancellations.isCancelled [demand.cancellation] then .stale
        else .publish) ∧
      (∀ demand, (∀ taken ∈ run.taken, taken.key = demand.key → taken.revision ≠ demand.revision) →
        run.queue.finish demand = (.unknown, run.queue)) ∧
      run.accepted.Nodup ∧ run.accepted.Perm (run.queue.departed.map (·.1) ++
        run.queue.queued.entries.map (·.2.revision)) := by
  have h := (Sound.of_start hqueue).run hrun
  obtain ⟨hcapacity, hmax⟩ := h.limits
  have hrunning := hmax ▸ h.queue.running
  refine ⟨hcapacity ▸ h.queue.bounded, hrunning, h.holds.length_le.trans hrunning, h.holds.keys,
    ?_, ?_, fun demand => h.finish_other, h.conserves.distinct, h.conserves.balance⟩
  · intro key revision hlatest
    refine (h.queue.latestOwned key revision trivial hlatest).imp_right ?_
    rintro ⟨f, hf, rfl⟩
    exact h.holds.covers key f hf
  · intro demand hmem
    rw [h.finish_taken hmem]
    simp [Cancellations.isCancelled]

end QueueRun

namespace QueueRun

/-- A demand is superseded while it is in flight. -/
def supersede : Option (QueueRun Nat Nat) :=
  (LatestWinsQueue.withMaxInFlight 1 1).bind fun queue =>
    Transition.run step (start queue) [.schedule 7 1 10, .popNext, .schedule 7 1 11]

theorem run_sound_supersede : ∃ run, supersede = some run ∧ run.taken.length = 1 ∧
    ∀ demand ∈ run.taken, (run.queue.finish demand).1 = .stale := by
  obtain ⟨run, hrun⟩ := Option.isSome_iff_exists.mp (show supersede.isSome by decide +kernel)
  have htaken : supersede.all (fun run => run.taken.length = 1 && run.taken.all fun demand =>
      run.queue.cancellations.isCancelled [demand.cancellation]) := by decide +kernel
  rw [hrun, Option.all_some, Bool.and_eq_true, decide_eq_true_eq, all_eq_true] at htaken
  obtain ⟨queue, hqueue, hrun'⟩ := Option.bind_eq_some_iff.mp hrun
  obtain ⟨-, -, -, -, -, hfinish, -⟩ := run_sound hqueue hrun'
  refine ⟨run, hrun, htaken.1, fun demand hmem => ?_⟩
  rw [hfinish demand hmem, if_pos (htaken.2 demand hmem)]

end QueueRun

end KeyReader.Runtime
