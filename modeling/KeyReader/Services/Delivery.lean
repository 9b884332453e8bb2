import KeyReader.OrderedMap
import KeyReader.Services.Router
import Mathlib.Data.List.Nodup

/-! Runs of the task service: calls of the router, completions of its threads and the loop of
`poll_ready`, in any order that the exclusive use of the router admits. -/

namespace KeyReader.Services

open Extension

def TaskThread.key (thread : TaskThread) : TaskKey := taskKey thread.effect.extension thread.task

/-- The router with its completion channel and the threads that have sent.  While `poll_ready` runs,
`polling` holds its maximum and what it has collected. -/
structure TaskService where
  router : HostServiceRouter
  completions : List BackgroundCompletion
  completed : List Nat
  polling : Option (Nat × List (Nat × ServiceCompletion))
  /-- The results of the calls of `poll_ready`, with the threads that they came from. -/
  returned : List (Nat × ServiceCompletion)
  /-- The threads whose completion `poll_ready` has taken from the channel. -/
  received : List Nat
  /-- The threads whose task a cancellation of its extension, or of all, has taken. -/
  withdrawn : List Nat
  /-- The threads that were started under the key of a thread that was not received yet. -/
  following : List Nat
  /-- The threads under whose key another was started before they were received. -/
  followed : List Nat

inductive Event
  | dispatch (effect : ArbitratedEffect) (storageQuota : Nat) (spawn : Except String Unit)
  | cancelExtension (extension : ExtensionId)
  | cancelAll
  | complete (thread : Nat) (result : EffectResult)
  | pollBegin (maximum : Nat)
  | pollReceive
  | pollEnd

namespace TaskService

def new (storage : MemoryExtensionStorage) (handlers : List String) (maximumActiveTasks : Nat) :
    TaskService :=
  { router := .new storage handlers maximumActiveTasks, completions := [], completed := []
    polling := none, returned := [], received := [], withdrawn := [], following := []
    followed := [] }

section

variable (service : TaskService)

/-- The threads under a key whose completion was not received yet. -/
def unreceived (key : TaskKey) : List Nat :=
  (List.range service.router.threads.length).filter fun n =>
    service.router.threads[n]?.any (·.key = key) && n ∉ service.received

def recordStart (key : TaskKey) : TaskService :=
  { service with
    followed := service.followed ++ service.unreceived key
    following := if service.unreceived key = [] then service.following
      else service.following ++ [service.router.threads.length] }

/-- One event.  `none` stands for an event that cannot happen: the calls need the router for
themselves, a thread sends once, and `poll_ready` ends when it has enough or finds the channel
empty. -/
def step : Event → Option TaskService
  | .dispatch effect storageQuota spawn =>
    match service.polling with
    | some _ => none
    | none =>
      let (answer, router) := service.router.dispatch effect storageQuota spawn
      match answer, effect.request.effect with
      | .deferred, .startTask task _ _ =>
        some { service.recordStart (taskKey effect.extension task) with router }
      | _, _ => some { service with router }
  | .cancelExtension extension =>
    match service.polling with
    | some _ => none
    | none => some { service with
        router := service.router.cancelExtension extension
        withdrawn := service.withdrawn ++ service.router.taken fun key => key.1 == extension }
  | .cancelAll =>
    match service.polling with
    | some _ => none
    | none => some { service with
        router := service.router.cancelAll
        withdrawn := service.withdrawn ++ service.router.taken fun _ => true }
  | .complete n result =>
    match service.router.threads[n]? with
    | none => none
    | some thread =>
      if n ∈ service.completed then none
      else some { service with
        completed := service.completed ++ [n]
        completions := service.completions ++
          [⟨thread.effect.extension, thread.task, thread.effect, result, n⟩] }
  | .pollBegin maximum =>
    match service.polling with
    | some _ => none
    | none => some { service with polling := some (maximum, []) }
  | .pollReceive =>
    match service.polling, service.completions with
    | some (maximum, ready), completion :: rest =>
      if ready.length < maximum then
        let (result, router) := service.router.receive completion
        some { service with
          router
          completions := rest
          received := service.received ++ [completion.thread]
          polling := some (maximum, ready ++ (result.map (completion.thread, ·)).toList) }
      else none
    | _, _ => none
  | .pollEnd =>
    match service.polling with
    | some (maximum, ready) =>
      if maximum ≤ ready.length ∨ service.completions = [] then
        some { service with polling := none, returned := service.returned ++ ready }
      else none
    | none => none

def run (service : TaskService) : List Event → Option TaskService
  | [] => some service
  | event :: events => do
    let next ← service.step event
    next.run events

/-- The threads whose results `poll_ready` has returned or is about to return. -/
def delivered : List Nat :=
  service.returned.map (·.1) ++ service.polling.elim [] fun (_, ready) => ready.map (·.1)

end

end TaskService

end KeyReader.Services

/-! Delivery of task results.  A task that no cancellation of its extension has taken keeps its
entry until its completion is received, unless its key still had an unreceived task when it
started. -/

namespace KeyReader.Services

open Extension Std OrderedMap Option

/-- What the dispatch of an effect does to the tasks: nothing, or the start of one under a free
key. -/
theorem HostServiceRouter.dispatch_cases (router : HostServiceRouter) (effect : ArbitratedEffect)
    (storageQuota : Nat) (spawn : Except String Unit) :
    (∃ answer storage cancelled,
      router.dispatch effect storageQuota spawn = (answer, { router with storage, cancelled }) ∧
        ∀ task operation input, effect.request.effect = .startTask task operation input →
          ∃ result, answer = .immediate result) ∨
      ∃ task operation input, effect.request.effect = .startTask task operation input ∧
        router.activeTasks.size < router.maximumActiveTasks ∧
        router.activeTasks[taskKey effect.extension task]? = none ∧
        router.dispatch effect storageQuota spawn = (.deferred, { router with
          threads := router.threads ++ [{ effect, task, operation, input }]
          activeTasks := router.activeTasks.insert (taskKey effect.extension task)
            { effect, cancellation := router.threads.length } }) := by
  unfold dispatch
  split
  case h_4 task operation input heffect =>
    unfold startTask
    split
    · exact .inl ⟨_, router.storage, router.cancelled, rfl, fun _ _ _ _ => ⟨_, rfl⟩⟩
    split
    · exact .inl ⟨_, router.storage, router.cancelled, rfl, fun _ _ _ _ => ⟨_, rfl⟩⟩
    split
    · exact .inl ⟨_, router.storage, router.cancelled, rfl, fun _ _ _ _ => ⟨_, rfl⟩⟩
    split
    · exact .inl ⟨_, router.storage, router.cancelled, rfl, fun _ _ _ _ => ⟨_, rfl⟩⟩
    · rename_i hsize hkey _ _
      refine .inr ⟨task, operation, input, heffect, Nat.lt_of_not_le hsize, ?_, rfl⟩
      rw [contains_eq_isSome] at hkey
      exact not_isSome_iff_eq_none.mp hkey
  case h_5 task heffect =>
    left
    unfold cancelTask
    split
    · exact ⟨_, router.storage, _, rfl, fun _ _ _ h => by simp_all⟩
    · exact ⟨_, router.storage, router.cancelled, rfl, fun _ _ _ h => by simp_all⟩
  all_goals exact .inl ⟨_, _, router.cancelled, rfl, fun _ _ _ h => by simp_all⟩

/-- A turn of `poll_ready` removes the entry under the key of the completion, whichever task it is
of, and passes the completion on when the entry has its generation and effect id. -/
theorem HostServiceRouter.receive_spec (router : HostServiceRouter) (c : BackgroundCompletion) :
    (∃ activeTasks, (router.receive c).2 = { router with activeTasks } ∧
      activeTasks.size ≤ router.activeTasks.size ∧
      ∀ key, activeTasks[key]? = if taskKey c.extension c.task = key then none
        else router.activeTasks[key]?) ∧
      ((router.receive c).1.isSome ↔ ∃ active : ActiveTask,
        router.activeTasks[taskKey c.extension c.task]? = some active ∧
          active.effect.generation = c.effect.generation ∧
          active.effect.request.id = c.effect.request.id) := by
  cases hactive : router.activeTasks[taskKey c.extension c.task]? with
  | none =>
    simp only [receive, hactive]
    refine ⟨⟨router.activeTasks, rfl, le_rfl, fun key => ?_⟩, by simp⟩
    split
    · rename_i hkey
      rw [← hkey, hactive]
    · rfl
  | some active =>
    simp only [receive, hactive]
    refine ⟨⟨router.activeTasks.erase (taskKey c.extension c.task), ?_, ExtTreeMap.size_erase_le,
      getElem?_erase _ _⟩, ?_⟩
    · split <;> rfl
    · split
      · rename_i hdiffers
        simp only [isSome_none, Bool.false_eq_true, Option.some.injEq, false_iff]
        rintro ⟨found, rfl, hgeneration, hid⟩
        exact hdiffers.elim (· hgeneration) (· hid)
      · rename_i hsame
        simp only [not_or, Decidable.not_not] at hsame
        simp [hsame]

namespace TaskService

variable {n : Nat} {service : TaskService}

/-- What `unreceived` lists. -/
theorem mem_unreceived {key : TaskKey} :
    n ∈ service.unreceived key ↔ ∃ thread, service.router.threads[n]? = some thread ∧
      thread.key = key ∧ n ∉ service.received := by
  rw [unreceived, List.mem_filter, List.mem_range]
  constructor
  · rintro ⟨hlt, h⟩
    rw [List.getElem?_eq_getElem hlt] at h ⊢
    simp only [any_some, Bool.and_eq_true, decide_eq_true_eq] at h
    exact ⟨_, rfl, h⟩
  · rintro ⟨thread, hthread, hkey, hreceived⟩
    refine ⟨(List.getElem?_eq_some_iff.mp hthread).1, ?_⟩
    simp [hthread, hkey, hreceived]

/-- A thread that was not received, whose task no cancellation of its extension took, and that
started when no thread of its key was unreceived. -/
structure Sound (service : TaskService) (n : Nat) (thread : TaskThread) : Prop where
  started : service.router.threads[n]? = some thread
  unreceived : n ∉ service.received
  kept : n ∉ service.withdrawn
  clean : n ∉ service.following

structure Inv (limit : Nat) (service : TaskService) : Prop where
  limit : service.router.maximumActiveTasks = limit
  bounded : service.router.activeTasks.size ≤ service.router.maximumActiveTasks
  /-- An entry is that of an unreceived thread with its key and effect. -/
  entry : ∀ (key : TaskKey) (active : ActiveTask),
    service.router.activeTasks[key]? = some active → ∃ thread : TaskThread,
      service.router.threads[active.cancellation]? = some thread ∧ thread.key = key ∧
        thread.effect = active.effect ∧ active.cancellation ∉ service.received
  sent : ∀ c ∈ service.completions, ∃ thread : TaskThread,
    service.router.threads[c.thread]? = some thread ∧
      taskKey c.extension c.task = thread.key ∧ c.effect = thread.effect
  known : ∀ n ∈ service.completed, n < service.router.threads.length
  channel : service.received ++ service.completions.map (·.thread) = service.completed
  once : service.completed.Nodup
  delivered : service.delivered.Sublist service.received
  sound : ∀ n thread, service.Sound n thread → ∃ active : ActiveTask,
    service.router.activeTasks[thread.key]? = some active ∧ active.cancellation = n
  alone : ∀ n thread, service.Sound n thread → ∀ m ∈ service.unreceived thread.key, m = n
  taken : ∀ n ∈ service.withdrawn, n < service.router.threads.length
  gone : ∀ n (thread : TaskThread), service.router.threads[n]? = some thread → n ∈ service.withdrawn →
    n ∉ service.followed → n ∉ service.received → service.router.activeTasks[thread.key]? = none
  returns : ∀ n ∈ service.received, n ∉ service.withdrawn → n ∉ service.following →
    n ∈ service.delivered
  drops : ∀ n ∈ service.withdrawn, n ∉ service.followed → n ∉ service.delivered

theorem inv_new (storage : MemoryExtensionStorage) (handlers : List String)
    (maximumActiveTasks : Nat) : (new storage handlers maximumActiveTasks).Inv
      (max maximumActiveTasks 1) := by
  have hsound : ∀ n thread, ¬(new storage handlers maximumActiveTasks).Sound n thread := by
    intro n thread h
    simpa [new, HostServiceRouter.new] using h.started
  constructor
  case sound => exact fun n thread h => (hsound n thread h).elim
  case alone => exact fun n thread h => (hsound n thread h).elim
  all_goals simp [new, HostServiceRouter.new, TaskService.delivered]

variable {limit : Nat}

theorem Inv.received_lt (h : service.Inv limit) (hn : n ∈ service.received) :
    n < service.router.threads.length :=
  h.known n (h.channel ▸ List.mem_append_left _ hn)

theorem Inv.mem_taken (h : service.Inv limit) {takes : TaskKey → Bool}
    (hn : n ∈ service.router.taken takes) : ∃ thread,
      service.router.threads[n]? = some thread ∧ takes thread.key ∧ n ∉ service.received := by
  obtain ⟨⟨key, active⟩, hmem, rfl⟩ := List.mem_map.mp hn
  obtain ⟨hmem, htakes⟩ := List.mem_filter.mp hmem
  obtain ⟨thread, hthread, rfl, -, hreceived⟩ := h.entry key active ((mem_toList_iff _ _ _).mp hmem)
  exact ⟨thread, hthread, htakes, hreceived⟩

theorem mem_taken_of_entry {router : HostServiceRouter} {takes : TaskKey → Bool} {key : TaskKey}
    {active : ActiveTask} (h : router.activeTasks[key]? = some active) (htakes : takes key) :
    active.cancellation ∈ router.taken takes :=
  List.mem_map.mpr ⟨(key, active), List.mem_filter.mpr ⟨(mem_toList_iff _ _ _).mpr h, htakes⟩, rfl⟩

/-- The withdrawal of the tasks under some keys. -/
theorem Inv.cancelWhere (h : service.Inv limit) (takes : TaskKey → Bool)
    (storage : MemoryExtensionStorage) : Inv limit { service with
      router := { service.router.cancelWhere takes with storage }
      withdrawn := service.withdrawn ++ service.router.taken takes } where
  limit := h.limit
  bounded := (ExtTreeMap.size_filter_le_size).trans h.bounded
  entry key active hactive := by
    simp only [HostServiceRouter.cancelWhere, getElem?_filter] at hactive
    split at hactive
    · exact h.entry key active hactive
    · cases hactive
  sent := h.sent
  known := h.known
  channel := h.channel
  once := h.once
  delivered := h.delivered
  sound n thread hsound := by
    have hold : service.Sound n thread :=
      ⟨hsound.started, hsound.unreceived, fun hn => hsound.kept (List.mem_append_left _ hn),
        hsound.clean⟩
    obtain ⟨active, hactive, rfl⟩ := h.sound n thread hold
    refine ⟨active, ?_, rfl⟩
    have htakes : takes thread.key = false := by
      by_contra htakes
      exact hsound.kept (List.mem_append_right _ (mem_taken_of_entry hactive (by simpa using htakes)))
    simp [HostServiceRouter.cancelWhere, htakes, hactive]
  alone n thread hsound := h.alone n thread ⟨hsound.started, hsound.unreceived,
      fun hn => hsound.kept (List.mem_append_left _ hn), hsound.clean⟩
  taken n hn := by
    rcases List.mem_append.mp hn with hn | hn
    · exact h.taken n hn
    · obtain ⟨thread, hthread, -, -⟩ := h.mem_taken hn
      exact (List.getElem?_eq_some_iff.mp hthread).1
  gone n thread hthread hn hfollowed hreceived := by
    simp only [HostServiceRouter.cancelWhere, getElem?_filter]
    rcases List.mem_append.mp hn with hn | hn
    · rw [h.gone n thread hthread hn hfollowed hreceived, ite_self]
    · obtain ⟨taken, htaken, htakes, -⟩ := h.mem_taken hn
      cases hthread.symm.trans htaken
      simp [htakes]
  returns n hn hkept := h.returns n hn fun hn' => hkept (List.mem_append_left _ hn')
  drops n hn hfollowed hdelivered := by
    rcases List.mem_append.mp hn with hn | hn
    · exact h.drops n hn hfollowed hdelivered
    · obtain ⟨_, -, -, hreceived⟩ := h.mem_taken hn
      exact hreceived (h.delivered.subset hdelivered)

def started (service : TaskService) (thread : TaskThread) : TaskService :=
  { service.recordStart thread.key with
    router := { service.router with
      threads := service.router.threads ++ [thread]
      activeTasks := service.router.activeTasks.insert thread.key
        { effect := thread.effect, cancellation := service.router.threads.length } } }

variable {found thread : TaskThread}

theorem getElem?_started (h : (service.started thread).router.threads[n]? = some found) :
    n = service.router.threads.length ∧ found = thread ∨
      n < service.router.threads.length ∧ service.router.threads[n]? = some found := by
  rcases Nat.lt_or_ge n service.router.threads.length with hlt | hge
  · right
    exact ⟨hlt, (List.getElem?_append_left hlt).symm.trans h⟩
  · left
    have hn := (List.getElem?_eq_some_iff.mp h).1
    simp only [started, List.length_append, List.length_singleton] at hn
    obtain rfl : n = service.router.threads.length := by omega
    exact ⟨rfl, by simpa [started, eq_comm] using h⟩

theorem getElem?_started_of_some (h : service.router.threads[n]? = some found) :
    (service.started thread).router.threads[n]? = some found :=
  (List.getElem?_append_left (List.getElem?_eq_some_iff.mp h).1).trans h

theorem mem_following_started (h : n ∈ service.following) :
    n ∈ (service.started thread).following := by
  simp only [started, recordStart]
  split
  · exact h
  · exact List.mem_append_left _ h

theorem Inv.sound_started (h : service.Inv limit) (hfree : service.router.activeTasks[thread.key]? = none)
    (hsound : (service.started thread).Sound n found) :
    n = service.router.threads.length ∧ found = thread ∧ service.unreceived thread.key = [] ∨
      service.Sound n found ∧ found.key ≠ thread.key := by
  rcases getElem?_started hsound.started with ⟨rfl, rfl⟩ | ⟨hlt, hfound⟩
  · left
    refine ⟨rfl, rfl, ?_⟩
    by_contra hne
    refine hsound.clean ?_
    simp [started, recordStart, hne]
  · right
    have hold : service.Sound n found :=
      ⟨hfound, hsound.unreceived, hsound.kept, fun hn => hsound.clean (mem_following_started hn)⟩
    refine ⟨hold, fun hkey => ?_⟩
    obtain ⟨active, hactive, -⟩ := h.sound n found hold
    rw [hkey, hfree] at hactive
    cases hactive

theorem Inv.started (h : service.Inv limit)
    (hsize : service.router.activeTasks.size < service.router.maximumActiveTasks)
    (hfree : service.router.activeTasks[thread.key]? = none) : (service.started thread).Inv limit where
  limit := h.limit
  bounded := by
    refine (ExtTreeMap.size_insert_le).trans ?_
    exact hsize
  entry key active hactive := by
    simp only [TaskService.started, getElem?_insert] at hactive
    split at hactive
    · rename_i hkey
      cases hactive
      refine ⟨thread, by simp [TaskService.started], hkey, rfl, fun hn => ?_⟩
      exact Nat.lt_irrefl _ (h.received_lt hn)
    · obtain ⟨found, hfound, hrest⟩ := h.entry key active hactive
      exact ⟨found, getElem?_started_of_some hfound, hrest⟩
  sent c hc := by
    obtain ⟨found, hfound, hrest⟩ := h.sent c hc
    exact ⟨found, getElem?_started_of_some hfound, hrest⟩
  known n hn := by
    have := h.known n hn
    simp only [TaskService.started, List.length_append, List.length_singleton]
    omega
  channel := h.channel
  once := h.once
  delivered := h.delivered
  sound n found hsound := by
    rcases h.sound_started hfree hsound with ⟨rfl, rfl, -⟩ | ⟨hold, hkey⟩
    · exact ⟨⟨found.effect, service.router.threads.length⟩,
        by simp [TaskService.started], rfl⟩
    · obtain ⟨active, hactive, hn⟩ := h.sound n found hold
      refine ⟨active, ?_, hn⟩
      simp only [TaskService.started, getElem?_insert, Ne.symm hkey, if_false]
      exact hactive
  alone n found hsound m hm := by
    obtain ⟨other, hother, hkey, hreceived⟩ := mem_unreceived.mp hm
    rcases h.sound_started hfree hsound with ⟨rfl, rfl, hnone⟩ | ⟨hold, hne⟩
    · rcases getElem?_started hother with ⟨rfl, -⟩ | ⟨-, hother⟩
      · rfl
      · have hmem : m ∈ service.unreceived found.key :=
          mem_unreceived.mpr ⟨other, hother, hkey, hreceived⟩
        rw [hnone] at hmem
        cases hmem
    · rcases getElem?_started hother with ⟨-, rfl⟩ | ⟨-, hother⟩
      · exact absurd hkey.symm hne
      · exact h.alone n found hold m (mem_unreceived.mpr ⟨other, hother, hkey, hreceived⟩)
  taken n hn := by
    have := h.taken n hn
    simp only [TaskService.started, List.length_append, List.length_singleton]
    omega
  gone n found hfound hn hfollowed hreceived := by
    have hlt := h.taken n hn
    rcases getElem?_started hfound with ⟨rfl, -⟩ | ⟨-, hfound⟩
    · exact absurd hlt (Nat.lt_irrefl _)
    · have hfollowed' : n ∉ service.followed ∧ n ∉ service.unreceived thread.key := by
        simpa [TaskService.started, recordStart] using hfollowed
      have hkey : thread.key ≠ found.key := fun hkey =>
        hfollowed'.2 (mem_unreceived.mpr ⟨found, hfound, hkey.symm, hreceived⟩)
      simp only [TaskService.started, getElem?_insert, hkey, if_false]
      exact h.gone n found hfound hn hfollowed'.1 hreceived
  returns n hn hkept hclean := h.returns n hn hkept fun hn => hclean (mem_following_started hn)
  drops n hn hfollowed := h.drops n hn fun hn => hfollowed (List.mem_append_left _ hn)

theorem Inv.complete (h : service.Inv limit) (hthread : service.router.threads[n]? = some thread)
    (hnew : n ∉ service.completed) (result : EffectResult) : Inv limit { service with
      completed := service.completed ++ [n]
      completions := service.completions ++
        [⟨thread.effect.extension, thread.task, thread.effect, result, n⟩] } :=
  { h with
    sent := by
      intro c hc
      rcases List.mem_append.mp hc with hc | hc
      · exact h.sent c hc
      · rw [List.mem_singleton.mp hc]
        exact ⟨thread, hthread, rfl, rfl⟩
    known := by
      intro m hm
      rcases List.mem_append.mp hm with hm | hm
      · exact h.known m hm
      · rw [List.mem_singleton.mp hm]
        exact (List.getElem?_eq_some_iff.mp hthread).1
    channel := by
      rw [List.map_append, ← List.append_assoc, h.channel]
      rfl
    once := by
      rw [List.nodup_append]
      refine ⟨h.once, by simp, fun a ha b hb => ?_⟩
      rw [List.mem_singleton.mp hb]
      rintro rfl
      exact hnew ha
    sound := fun m other hs => h.sound m other { hs with }
    alone := fun m other hs => h.alone m other { hs with } }

/-- The service after a turn of `poll_ready` with a completion. -/
def receivedOne (service : TaskService) (maximum : Nat) (ready : List (Nat × ServiceCompletion))
    (completion : BackgroundCompletion) (rest : List BackgroundCompletion) : TaskService :=
  { service with
    router := (service.router.receive completion).2
    completions := rest
    received := service.received ++ [completion.thread]
    polling := some (maximum, ready ++
      ((service.router.receive completion).1.map (completion.thread, ·)).toList) }

variable {maximum : Nat} {ready : List (Nat × ServiceCompletion)}

theorem delivered_receivedOne (hpolling : service.polling = some (maximum, ready))
    (c : BackgroundCompletion) (rest : List BackgroundCompletion) :
    (service.receivedOne maximum ready c rest).delivered =
      service.delivered ++ if (service.router.receive c).1.isSome then [c.thread] else [] := by
  simp only [TaskService.delivered, receivedOne, hpolling, elim_some, List.map_append,
    List.append_assoc]
  cases (service.router.receive c).1 <;> rfl

theorem Inv.receivedOne (h : service.Inv limit) {c : BackgroundCompletion}
    {rest : List BackgroundCompletion} (hpolling : service.polling = some (maximum, ready))
    (hchannel : service.completions = c :: rest) :
    (service.receivedOne maximum ready c rest).Inv limit := by
  obtain ⟨thread, hthread, hkey, heffect⟩ := h.sent c (hchannel ▸ List.mem_cons_self)
  have hcompleted := h.channel
  rw [hchannel, List.map_cons] at hcompleted
  have hnodup := hcompleted ▸ h.once
  have hnew : c.thread ∉ service.received := fun hn =>
    (List.nodup_append.mp hnodup).2.2 _ hn _ List.mem_cons_self rfl
  obtain ⟨⟨activeTasks, hrouter, hsize, hlookup⟩, hsome⟩ := service.router.receive_spec c
  rw [hkey] at hlookup hsome
  have hdelivered := delivered_receivedOne hpolling c rest
  unfold TaskService.receivedOne at hdelivered ⊢
  rw [hrouter] at hdelivered ⊢
  -- A thread that stays sound has another key.
  have hsound : ∀ n found, Sound { service with
        router := { service.router with activeTasks }, completions := rest
        received := service.received ++ [c.thread]
        polling := some (maximum, ready ++
          ((service.router.receive c).1.map (c.thread, ·)).toList) } n found →
      service.Sound n found ∧ thread.key ≠ found.key := by
    intro n found hs
    have hold : service.Sound n found :=
      { hs with unreceived := fun hn => hs.unreceived (List.mem_append_left _ hn) }
    refine ⟨hold, fun heq => hs.unreceived ?_⟩
    have := h.alone n found hold c.thread (mem_unreceived.mpr ⟨thread, hthread, heq, hnew⟩)
    exact List.mem_append_right _ (List.mem_singleton.mpr this.symm)
  constructor
  case limit => exact h.limit
  case bounded => exact hsize.trans h.bounded
  case entry =>
    intro key active hactive
    simp only [hlookup] at hactive ⊢
    split at hactive
    · cases hactive
    · rename_i hne
      obtain ⟨found, hfound, hfoundKey, hrest, hreceived⟩ := h.entry key active hactive
      refine ⟨found, hfound, hfoundKey, hrest, fun hn => ?_⟩
      rcases List.mem_append.mp hn with hn | hn
      · exact hreceived hn
      · rw [List.mem_singleton.mp hn, hthread] at hfound
        exact hne (some.inj hfound ▸ hfoundKey)
  case sent => exact fun other hother => h.sent other (hchannel ▸ List.mem_cons_of_mem _ hother)
  case known => exact h.known
  case channel => simpa using hcompleted
  case once => exact h.once
  case delivered =>
    rw [hdelivered]
    refine h.delivered.append ?_
    split
    · exact List.Sublist.refl _
    · exact List.nil_sublist _
  case sound =>
    intro n found hs
    obtain ⟨hold, hne⟩ := hsound n found hs
    obtain ⟨active, hactive, hn⟩ := h.sound n found hold
    refine ⟨active, ?_, hn⟩
    simp only [hlookup, hne, if_false]
    exact hactive
  case alone =>
    intro n found hs m hm
    obtain ⟨other, hother, hkey, hreceived⟩ := mem_unreceived.mp hm
    exact h.alone n found (hsound n found hs).1 m (mem_unreceived.mpr ⟨other, hother, hkey,
      fun hm => hreceived (List.mem_append_left _ hm)⟩)
  case taken => exact h.taken
  case gone =>
    intro n found hfound hn hfollowed hreceived
    simp only [hlookup] at hfound ⊢
    rw [h.gone n found hfound hn hfollowed fun hn => hreceived (List.mem_append_left _ hn),
      ite_self]
  case returns =>
    intro n hn hkept hclean
    rw [hdelivered]
    rcases List.mem_append.mp hn with hn | hn
    · exact List.mem_append_left _ (h.returns n hn hkept hclean)
    · -- The entry of a sound thread is its own, so the comparison succeeds.
      obtain rfl := List.mem_singleton.mp hn
      obtain ⟨active, hactive, hsame⟩ := h.sound _ thread ⟨hthread, hnew, hkept, hclean⟩
      obtain ⟨found, hfound, -, hfoundEffect, -⟩ := h.entry _ active hactive
      rw [hsame, hthread] at hfound
      cases hfound
      have hmatch := hsome.mpr ⟨active, hactive, by rw [heffect, hfoundEffect],
        by rw [heffect, hfoundEffect]⟩
      simp [hmatch]
  case drops =>
    intro n hn hfollowed
    rw [hdelivered, List.mem_append, not_or]
    refine ⟨h.drops n hn hfollowed, fun hmem => ?_⟩
    split at hmem
    · rename_i hmatch
      obtain rfl := List.mem_singleton.mp hmem
      obtain ⟨active, hactive, -⟩ := hsome.mp hmatch
      rw [h.gone _ thread hthread hn hfollowed hnew] at hactive
      cases hactive
    · cases hmem

theorem Inv.polled (h : service.Inv limit) {polling : Option (Nat × List (Nat × ServiceCompletion))}
    {returned : List (Nat × ServiceCompletion)}
    (hdelivered : TaskService.delivered { service with polling, returned } = service.delivered) :
    Inv limit { service with polling, returned } :=
  { h with
    delivered := hdelivered ▸ h.delivered
    returns := hdelivered ▸ h.returns
    drops := hdelivered ▸ h.drops
    sound := fun n thread hs => h.sound n thread { hs with }
    alone := fun n thread hs => h.alone n thread { hs with } }

/-- Every event keeps the invariant. -/
theorem Inv.step {next : TaskService} (h : service.Inv limit) {event : Event}
    (hstep : service.step event = some next) : next.Inv limit := by
  cases event with
  | dispatch effect storageQuota spawn =>
    simp only [TaskService.step] at hstep
    split at hstep
    · cases hstep
    rcases service.router.dispatch_cases effect storageQuota spawn with
      ⟨answer, storage, cancelled, heq, hanswer⟩ | ⟨task, operation, input, heffect, hsize, hfree, heq⟩
    · have hnext : next = { service with router := { service.router with storage, cancelled } } := by
        rw [heq] at hstep
        simp only at hstep
        split at hstep
        · rename_i heffect
          obtain ⟨result, hresult⟩ := hanswer _ _ _ heffect
          cases hresult
        · exact (some.inj hstep).symm
      rw [hnext]
      exact { h with
        sound := fun n thread hs => h.sound n thread { hs with }
        alone := fun n thread hs => h.alone n thread { hs with } }
    · rw [heq, heffect] at hstep
      cases hstep
      have hthread : TaskThread.key ⟨effect, task, operation, input⟩ =
          taskKey effect.extension task := rfl
      rw [← hthread] at hfree ⊢
      exact h.started hsize hfree
  | cancelExtension extension | cancelAll =>
    simp only [TaskService.step] at hstep
    split at hstep
    · cases hstep
    · cases hstep
      exact h.cancelWhere _ _
  | complete n result =>
    simp only [TaskService.step] at hstep
    split at hstep
    · cases hstep
    · split at hstep
      · cases hstep
      · cases hstep
        exact h.complete ‹_› ‹_› result
  | pollBegin maximum =>
    simp only [TaskService.step] at hstep
    split at hstep
    · cases hstep
    · rename_i hpolling
      cases hstep
      have hdelivered : TaskService.delivered { service with polling := some (maximum, []) } =
          service.delivered := by
        simp [TaskService.delivered, hpolling]
      exact h.polled hdelivered
  | pollReceive =>
    simp only [TaskService.step] at hstep
    split at hstep
    · rename_i hpolling hchannel
      split at hstep
      · cases hstep
        exact h.receivedOne hpolling hchannel
      · cases hstep
    · cases hstep
  | pollEnd =>
    simp only [TaskService.step] at hstep
    split at hstep
    · rename_i maximum ready hpolling
      split at hstep
      · cases hstep
        have hdelivered : TaskService.delivered { service with
            polling := none, returned := service.returned ++ ready } = service.delivered := by
          simp [TaskService.delivered, hpolling]
        exact h.polled hdelivered
      · cases hstep
    · cases hstep

theorem Inv.run {final : TaskService} (h : service.Inv limit) {events : List Event}
    (hrun : service.run events = some final) : final.Inv limit := by
  induction events generalizing service with
  | nil =>
    cases hrun
    exact h
  | cons event events ih =>
    obtain ⟨next, hstep, hrest⟩ := bind_eq_some_iff.mp hrun
    exact ih (h.step hstep) hrest

/-- A call of `poll_ready` that takes every waiting completion. -/
def pollAll (waiting : Nat) : List Event :=
  .pollBegin waiting :: (List.replicate waiting .pollReceive ++ [.pollEnd])

/-- What a call of `poll_ready` leaves alone when it empties the channel. -/
structure Drained (service final : TaskService) : Prop where
  completions : final.completions = []
  polling : final.polling = none
  completed : final.completed = service.completed
  withdrawn : final.withdrawn = service.withdrawn
  following : final.following = service.following

theorem run_receive {waiting : Nat} (hpolling : service.polling = some (maximum, ready))
    (hwaiting : service.completions.length = waiting) (hroom : ready.length + waiting ≤ maximum) :
    ∃ final, service.run (List.replicate waiting .pollReceive ++ [.pollEnd]) = some final ∧
      service.Drained final := by
  induction waiting generalizing service ready with
  | zero =>
    have hempty : service.completions = [] := List.eq_nil_of_length_eq_zero hwaiting
    refine ⟨{ service with polling := none, returned := service.returned ++ ready }, ?_,
      ⟨hempty, rfl, rfl, rfl, rfl⟩⟩
    simp [run, TaskService.step, hpolling, hempty]
  | succ waiting ih =>
    obtain ⟨c, rest, hchannel⟩ := List.exists_cons_of_length_eq_add_one hwaiting
    have hlt : ready.length < maximum := by omega
    have hlength : (ready ++ ((service.router.receive c).1.map (c.thread, ·)).toList).length ≤
        ready.length + 1 := by
      cases (service.router.receive c).1 <;> simp
    have hrest : (service.receivedOne maximum ready c rest).completions.length = waiting := by
      show rest.length = waiting
      simpa [hchannel] using hwaiting
    have hpolling' : (service.receivedOne maximum ready c rest).polling = some (maximum, ready ++
        ((service.router.receive c).1.map (c.thread, ·)).toList) := rfl
    obtain ⟨final, hrun, hdrained⟩ := ih hpolling' hrest (by omega)
    refine ⟨final, ?_, { hdrained with }⟩
    rw [List.replicate_succ, List.cons_append, run]
    simp only [TaskService.step, hpolling, hchannel, hlt, if_true, bind_eq_bind, bind_some]
    exact hrun

theorem run_pollAll (hpolling : service.polling = none) :
    ∃ final, service.run (pollAll service.completions.length) = some final ∧
      service.Drained final := by
  let polling : TaskService := { service with polling := some (service.completions.length, []) }
  have hbegun : polling.polling = some (service.completions.length, []) := rfl
  obtain ⟨final, hrun, hdrained⟩ := run_receive hbegun rfl (Nat.le_of_eq (Nat.zero_add _))
  refine ⟨final, ?_, { hdrained with }⟩
  rw [pollAll, run]
  simp only [TaskService.step, hpolling, bind_eq_bind, bind_some]
  exact hrun

/-- In every run: the active tasks stay within the maximum.  A task that ended is returned exactly
once, as soon as its completion no longer waits in the channel, unless a cancellation of its
extension took it or an earlier task of its key was unreceived when it started.  A task that such
a cancellation took is not returned, unless another started under its key before it was received.
And `poll_ready` can always empty the channel. -/
theorem delivery {storage : MemoryExtensionStorage} {handlers : List String}
    {maximumActiveTasks : Nat} {events : List Event} {service : TaskService}
    (hrun : (new storage handlers maximumActiveTasks).run events = some service) :
    service.router.activeTasks.size ≤ max maximumActiveTasks 1 ∧
      (∀ n ∈ service.completed, service.polling = none → n ∉ service.withdrawn →
        n ∉ service.following → (service.returned.map Prod.fst).count n =
          if n ∈ service.completions.map (·.thread) then 0 else 1) ∧
      (∀ n ∈ service.withdrawn, n ∉ service.followed → n ∉ service.returned.map Prod.fst) ∧
      (service.polling = none →
        ∃ final, service.run (pollAll service.completions.length) = some final ∧
          service.Drained final) := by
  have h := (inv_new storage handlers maximumActiveTasks).run hrun
  refine ⟨?_, ?_, ?_, run_pollAll⟩
  · exact h.limit ▸ h.bounded
  · intro n hn hpolling hkept hclean
    have hdelivered : service.delivered = service.returned.map Prod.fst := by
      simp [TaskService.delivered, hpolling]
    have hnodup := h.channel ▸ h.once
    rw [← hdelivered]
    split
    · rename_i hwaiting
      refine List.count_eq_zero.mpr fun hmem => ?_
      exact (List.nodup_append.mp hnodup).2.2 n (h.delivered.subset hmem) n hwaiting rfl
    · rename_i hreceived
      have hmem : n ∈ service.received := by
        rw [← h.channel, List.mem_append] at hn
        exact hn.resolve_right hreceived
      exact List.nodup_iff_count_eq_one.mp (h.delivered.nodup (List.nodup_append.mp hnodup).1) n
        (h.returns n hmem hkept hclean)
  · intro n hn hfollowed hmem
    exact h.drops n hn hfollowed (List.mem_append_left _ hmem)

/-- An effect of the extension `org.example`. -/
def exampleEffect (name : String) (effect : ExtensionEffect) : ArbitratedEffect :=
  ⟨"org.example", 1, ⟨⟨"org.example", name⟩, ⟨⟨0, 1⟩, none, 0⟩, effect⟩, []⟩

/-- A task that is started, cancelled by `CancelTask` and ends with its handler's error. -/
def cancelStarted : List Event :=
  [.dispatch (exampleEffect "start" (.startTask ⟨"org.example", "job"⟩ "index" .null)) 0 (.ok ()),
    .dispatch (exampleEffect "cancel" (.cancelTask ⟨"org.example", "job"⟩)) 0 (.ok ()),
    .complete 0 (.error cancelledError), .pollBegin 1, .pollReceive, .pollEnd]

theorem run_cancelStarted : ((new .empty ["index"] 16).run cancelStarted).map (fun service =>
      (service.router.cancelled, service.returned.map Prod.fst)) = some ([0], [0]) := by
  decide +kernel

/-- A task that `CancelTask` cancels is still returned. -/
theorem returned_cancelStarted : ∃ service,
    (new .empty ["index"] 16).run cancelStarted = some service ∧
      0 ∈ service.router.cancelled ∧ 0 ∈ service.returned.map Prod.fst := by
  obtain ⟨service, hrun, hservice⟩ := map_eq_some_iff.mp run_cancelStarted
  obtain ⟨hcancelled, hreturned⟩ := Prod.mk.inj hservice
  exact ⟨service, hrun, by simp [hcancelled], by simp [hreturned]⟩

theorem delivery_cancelStarted : ∃ service,
    (new .empty ["index"] 16).run cancelStarted = some service ∧
      service.router.activeTasks.size ≤ 16 ∧
      (∀ n ∈ service.completed, service.polling = none → n ∉ service.withdrawn →
        n ∉ service.following → (service.returned.map Prod.fst).count n =
          if n ∈ service.completions.map (·.thread) then 0 else 1) ∧
      (∀ n ∈ service.withdrawn, n ∉ service.followed → n ∉ service.returned.map Prod.fst) ∧
      (service.polling = none →
        ∃ final, service.run (pollAll service.completions.length) = some final ∧
          service.Drained final) := by
  obtain ⟨service, hrun, -⟩ := map_eq_some_iff.mp run_cancelStarted
  exact ⟨service, hrun, delivery hrun⟩

end TaskService

end KeyReader.Services
