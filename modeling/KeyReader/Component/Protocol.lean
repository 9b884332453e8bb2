import KeyReader.Component.Delivery
import KeyReader.Component.Pending

/-! The limits of the mailbox, the wait for room, and the protocol as a whole. -/

namespace KeyReader.Component

open Machine Extension Transition Compaction Outstanding List

/-- Neither queue has more than its limit. -/
def Within (mailbox : MailboxState) (_ : Worker) (_ : List (WorkerResult × Nat)) : Prop :=
  mailbox.pendingEvents ≤ mailbox.maximumPendingEvents ∧
    mailbox.results.length ≤ mailbox.maximumPendingResults

theorem pendingEvents_append (mailbox : MailboxState) (commands : List WorkerCommand)
    (command : WorkerCommand) :
    ({ mailbox with commands := commands ++ [command] } : MailboxState).pendingEvents =
      ({ mailbox with commands } : MailboxState).pendingEvents + command.isEvent.toNat := by
  unfold MailboxState.pendingEvents
  cases h : command.isEvent <;> simp [filter_append, h]

theorem isEvent_of_coalescingKey {command : WorkerCommand} {key : CoalescingKey}
    (h : command.coalescingKey = some key) : command.isEvent = true := by
  cases command with
  | event => rfl
  | activate | suspend | resume | unload => cases h

theorem within_event {mailbox next : MailboxState} {hostGeneration : GenerationId}
    {envelope : EventEnvelope} (h : mailbox.pendingEvents ≤ mailbox.maximumPendingEvents)
    (hnext : mailbox.enqueueEvent hostGeneration envelope = .ok next) :
    next.pendingEvents ≤ mailbox.maximumPendingEvents := by
  unfold MailboxState.enqueueEvent at hnext
  split at hnext
  · cases hnext
  split at hnext
  · cases hnext
  split at hnext
  · rename_i index hindex
    cases hnext
    obtain ⟨key, -, hmatch⟩ := Option.bind_eq_some_iff.mp hindex
    obtain ⟨before, dropped, after, hcommands, rfl, -, hdropped, -⟩ := trailingMatch_eq_some hmatch
    have hevent := isEvent_of_coalescingKey (of_decide_eq_true hdropped)
    refine Nat.le_trans (Nat.le_of_eq ?_) h
    unfold MailboxState.pendingEvents MailboxState.push MailboxState.accept
    rw [hcommands, eraseIdx_append_of_length_le le_rfl, Nat.sub_self]
    have hlast : ∀ (call lifecycle work : Nat), (WorkerCommand.event call lifecycle work hostGeneration
        envelope).isEvent = true := fun _ _ _ => rfl
    simp only [← countP_eq_length_filter, countP_append, eraseIdx_cons_zero,
      countP_cons, countP_nil, hevent, hlast, if_true]
    omega
  · rename_i hnone
    split at hnext
    · cases hnext
    · rename_i hroom
      cases hnext
      refine (pendingEvents_append mailbox mailbox.commands _).trans_le ?_
      have hone : ∀ command : WorkerCommand, command.isEvent.toNat ≤ 1 := fun command => by
        cases command.isEvent <;> decide
      exact Nat.le_trans (Nat.add_le_add_left (hone _) _) (Nat.lt_of_not_le hroom)

theorem length_drainFrom (isCurrent : WorkerResult → Bool) (maximum : Nat)
    (results : List WorkerResult) :
    (MailboxState.drainFrom isCurrent maximum results).2.length ≤ results.length := by
  induction results generalizing maximum with
  | nil => cases maximum <;> exact le_rfl
  | cons result results ih =>
    cases maximum with
    | zero => exact le_rfl
    | succ maximum =>
      rw [MailboxState.drainFrom]
      split
      · exact Nat.le_succ_of_le (ih maximum)
      · exact Nat.le_succ_of_le (ih (maximum + 1))

theorem within : Invariant Within where
  spawn _ := ⟨Nat.zero_le _, Nat.zero_le _⟩
  wake h := h
  activate _ h _ := ⟨Nat.zero_le _, Nat.zero_le _⟩
  event h hnext := by
    have hevents := within_event h.1 hnext
    rw [enqueueEvent_frame hnext] at hevents ⊢
    exact ⟨hevents, h.2⟩
  cancel enqueueSuspend h _ := by
    have hnone : ∀ commands : List WorkerCommand,
        (commands.filter (!·.isEvent)).filter WorkerCommand.isEvent = [] := fun commands => by
      simp [filter_filter]
    cases enqueueSuspend with
    | true =>
      refine ⟨?_, Nat.le_trans (length_filter_le _ _) h.2⟩
      simp [MailboxState.cancelEventGeneration, MailboxState.pendingEvents, MailboxState.push,
        MailboxState.accept, WorkerCommand.isEvent]
    | false =>
      refine ⟨?_, Nat.le_trans (length_filter_le _ _) h.2⟩
      simp [MailboxState.cancelEventGeneration, MailboxState.pendingEvents, MailboxState.accept, hnone]
  resume context h _ := by
    refine ⟨?_, h.2⟩
    exact (pendingEvents_append _ _ _).trans_le h.1
  close _ := ⟨Nat.zero_le _, Nat.zero_le _⟩
  drain maximum h := ⟨h.1, (length_drainFrom _ _ _).trans h.2⟩
  starve h := h
  take h hcommands := by
    refine ⟨Nat.le_trans ?_ h.1, h.2⟩
    unfold MailboxState.pendingEvents MailboxState.take
    rw [hcommands]
    exact ((sublist_cons_self _ _).filter _).length_le
  execute _ _ h := h
  lower h := h
  finish h := h
  coalesce h hnext := by
    obtain ⟨index, hreplaced, rfl⟩ := Option.map_eq_some_iff.mp hnext
    obtain ⟨key, -, hmatch⟩ := Option.bind_eq_some_iff.mp hreplaced
    obtain ⟨before, dropped, after, hresults, rfl, -⟩ := trailingMatch_eq_some hmatch
    refine ⟨h.1, ?_⟩
    have hlength := h.2
    rw [hresults] at hlength
    rw [hresults, eraseIdx_append_of_length_le le_rfl, Nat.sub_self]
    simp only [length_append, length_cons, eraseIdx_cons_zero, length_nil]
      at hlength ⊢
    omega
  wait h _ _ := h
  retain h _ hroom := by
    unfold MailboxState.retain
    split
    · rename_i hcurrent
      refine ⟨h.1, ?_⟩
      simp only [MailboxState.mustWait, Bool.and_assoc] at hroom
      rw [hcurrent, Bool.and_true, decide_eq_false_iff_not] at hroom
      simp only [length_append, length_singleton]
      omega
    · exact h
  leave h := ⟨Nat.zero_le _, h.2⟩

section

variable (mailbox : MailboxState)

/-- The worker sleeps only as long as there is no room for its result. -/
def Waits (worker : Worker) (_ : List (WorkerResult × Nat)) : Prop :=
  ∀ command result, worker = .blocked command result → mailbox.mustWait result = true

theorem Worker.notified_ne_blocked (worker : Worker) (command : WorkerCommand)
    (result : WorkerResult) : worker.notified ≠ .blocked command result := by
  cases worker <;> simp [Worker.notified]

theorem Worker.after_ne_blocked (done command : WorkerCommand) (result : WorkerResult) :
    Worker.after done ≠ .blocked command result := by
  unfold Worker.after
  split <;> simp

theorem waits_notified (worker : Worker) (drained : List (WorkerResult × Nat)) :
    Waits mailbox worker.notified drained := fun command result h =>
  absurd h (worker.notified_ne_blocked command result)

theorem waits_after (done : WorkerCommand)
    (drained : List (WorkerResult × Nat)) : Waits mailbox (.after done) drained :=
  fun command result h => absurd h (Worker.after_ne_blocked done command result)

end

theorem waits : Invariant Waits where
  spawn _ := fun _ _ h => by cases h
  wake _ := waits_notified _ _ _
  activate _ _ _ := waits_notified _ _ _
  event _ _ := waits_notified _ _ _
  cancel _ _ _ := waits_notified _ _ _
  resume _ _ _ := waits_notified _ _ _
  close _ := waits_notified _ _ _
  drain _ _ := waits_notified _ _ _
  starve _ := fun _ _ h => by cases h
  take _ _ := fun _ _ h => by cases h
  execute _ _ _ := fun _ _ h => by cases h
  lower _ := fun _ _ h => by cases h
  finish _ := waits_after _ _ _
  coalesce _ _ := waits_after _ _ _
  wait _ _ hwait := fun _ _ h => by
    cases h
    exact hwait
  retain _ _ _ := waits_after _ _ _
  leave _ := fun _ _ h => by cases h

/-- The calls that are accepted and not yet answered. -/
def System.outstanding (system : System) : List Nat :=
  (items system.mailbox system.worker).map Item.call

structure Protocol (system : System) : Prop where
  /-- Results are drained in the order of their calls, each at most once. -/
  ordered : (system.drained.map (·.1.call)).Pairwise (· < ·)
  ofCall : ∀ entry ∈ system.drained, entry.1.Of system.mailbox.calls
  /-- An accepted event is drained or still to come, unless it was replaced or cancelled. -/
  complete : ∀ n envelope, system.mailbox.calls[n]? = some (.event envelope) →
    n ∈ system.drained.map (·.1.call) ∨ n ∈ system.outstanding ∨
      Replaced Call.key system.mailbox.calls n ∨ Cancelled system.mailbox.calls n
  /-- Nothing of an event is drained after a call that cancels it. -/
  cancelled : system.mailbox.Fresh → ∀ entry ∈ system.drained, ∀ envelope,
    system.mailbox.calls[entry.1.call]? = some (.event envelope) →
    ∀ k call, entry.1.call < k → k < entry.2 → system.mailbox.calls[k]? = some call →
      call.cuts = false
  within : system.mailbox.pendingEvents ≤ system.mailbox.maximumPendingEvents ∧
    system.mailbox.results.length ≤ system.mailbox.maximumPendingResults
  /-- The worker does not wait on with a result that is outdated. -/
  leaves : system.mailbox.Fresh → ∀ command result,
    system.worker = .blocked command result ∨ system.worker = .woken command result →
    Outdated system.mailbox.calls result ∨ system.mailbox.closed = true →
    ∀ answer, ∃ next, system.work answer = some next ∧ next.worker = .after command

theorem not_mustWait {mailbox : MailboxState} {result : WorkerResult}
    (hdated : Dated mailbox result.item) (hfresh : mailbox.Fresh)
    (h : Outdated mailbox.calls result ∨ mailbox.closed = true) : mailbox.mustWait result = false := by
  cases hwait : mailbox.mustWait result with
  | false => rfl
  | true =>
    simp only [MailboxState.mustWait, Bool.and_eq_true, Bool.not_eq_true'] at hwait
    rcases h with houtdated | hclosed
    · exact absurd houtdated (hdated.wanted hwait.1.2 hfresh)
    · cases hwait.2.symm.trans hclosed

theorem cancelled_of_cut {calls : List Call} {n : Nat} {envelope : EventEnvelope}
    (hevent : calls[n]? = some (.event envelope)) (h : Cut Call.cuts calls n) :
    Cancelled calls n := by
  obtain ⟨k, call, hle, hcall, hcuts⟩ := h
  rcases Nat.eq_or_lt_of_le hle with rfl | hlt
  · cases hevent.symm.trans hcall
    cases hcuts
  · exact ⟨k, call, hlt, hcall, hcuts⟩

/-- In every state that is reached the mailbox keeps its protocol; that cancelled results are
recognised ends when a counter of epochs is saturated. -/
theorem mailbox_protocol {limits : WasmRuntimeLimits} {actions : List Action} {system : System}
    (h : Reaches limits actions system) : Protocol system := by
  have hdelivery := delivery_invariant.reaches h
  constructor
  · exact hdelivery.accounts.answered_sorted
  · exact fun entry hentry => (hdelivery.delivered entry hentry).ofCall
  · intro n envelope hevent
    have hlength := (List.getElem?_eq_some_iff.mp hevent).1
    rcases hdelivery.accounts.accounted n hlength with hlive | hdrained | hreplaced | hcut
    · exact .inr (.inl hlive)
    · exact .inl hdrained
    · exact .inr (.inr (.inl hreplaced))
    · exact .inr (.inr (.inr (cancelled_of_cut hevent hcut)))
  · intro hfresh entry hentry envelope hevent k call hk hbefore hcall
    obtain ⟨hof, hlength, hwanted⟩ := hdelivery.delivered entry hentry
    have hwork : entry.1.work.isSome = true := by
      rcases hof with ⟨_, _, _, hwork⟩ | ⟨hnone, _⟩
      · exact hwork
      · exact absurd hevent (hnone envelope)
    cases hcuts : call.cuts with
    | false => rfl
    | true =>
      refine absurd (.inr ⟨hwork, k, call, hk, ?_, hcuts⟩) (hwanted hfresh)
      rw [getElem?_take, if_pos hbefore]
      exact hcall
  · exact within.reaches h
  · intro hfresh command result hworker houtdated answer
    have hitem : result.item ∈ items system.mailbox system.worker := by
      refine mem_items_worker ?_
      rcases hworker with hworker | hworker
      · rw [hworker]
        exact mem_singleton_self _
      · rw [hworker]
        exact mem_singleton_self _
    have hroom := not_mustWait (hdelivery.dated _ hitem) hfresh houtdated
    rcases hworker with hworker | hworker
    · have hwait := waits.reaches h command result hworker
      cases hroom.symm.trans hwait
    · refine ⟨_, by rw [System.work, hworker], ?_⟩
      unfold System.offer
      rw [hroom]
      rfl

def exampleEvent : EventEnvelope :=
  ⟨exampleContext.cause, .host, 1, .lifecycle .applicationReady⟩

/-- The host activates the component, sends it an event, and drains both results. -/
def firstEvent : List Action :=
  [.activate exampleContext, .work none, .work (some (.ok .default)), .work none, .work none,
    .handleEvent exampleEvent, .work none, .work (some (.ok .default)), .work none, .work none,
    .drain 2]

theorem mailbox_protocol_firstEvent : ∃ system, Reaches .default firstEvent system ∧
    system.drained.map (·.1.call) = [0, 1] ∧ Protocol system :=
  ⟨_, rfl, rfl, @mailbox_protocol .default firstEvent _ rfl⟩

/-- An idle mailbox after some cancellations. -/
def System.cancelled (system : System) (n : Nat) : System :=
  { system with mailbox := { system.mailbox with
    work := min (system.mailbox.work + n) u64Max
    calls := system.mailbox.calls ++ List.replicate n .cancel } }

theorem run_cancels (n : Nat) {system : System} (hcommands : system.mailbox.commands = [])
    (hresults : system.mailbox.results = []) (hopen : system.mailbox.closed = false)
    (hworker : system.worker = .ready) (hwork : system.mailbox.work ≤ u64Max) :
    run step system (List.replicate n .cancel) = some (system.cancelled n) := by
  induction n generalizing system with
  | zero => simp [run, System.cancelled, Nat.min_eq_left hwork]
  | succ n ih =>
    have hstep : step system .cancel = some (system.cancelled 1) := by
      obtain ⟨proxy, mailbox, worker, loaded, drained⟩ := system
      dsimp only at hcommands hresults hopen hworker
      subst hworker
      simp [step, System.cancelDeferredEvents, System.cancelEventGeneration, hopen, System.notify,
        MailboxState.cancelEventGeneration, hcommands, hresults, MailboxState.accept,
        Worker.notified, System.cancelled, saturatingAdd]
    have hrest : (system.cancelled 1).cancelled n = system.cancelled (n + 1) := by
      have hwork' : min (min (system.mailbox.work + 1) u64Max + n) u64Max =
          min (system.mailbox.work + (n + 1)) u64Max := by
        omega
      simp [System.cancelled, hwork', replicate_succ]
    rw [replicate_succ, run, hstep, Option.bind_some,
      @ih (system.cancelled 1) hcommands hresults hopen hworker (Nat.min_le_right _ _), hrest]

/-- The worker has just drained the activation of an idle component. -/
def activated : List Action :=
  [.activate exampleContext, .work none, .work (some (.ok .default)), .work none, .work none,
    .drain 1]

/-- An event is cancelled while the worker executes it, and its result is drained. -/
def cancelledEvent : List Action :=
  [.handleEvent exampleEvent, .work none, .work (some (.ok .default)), .cancel, .work none,
    .work none, .drain 1]

/-- With a saturated counter, the cancellation does not change the epoch. -/
theorem run_cancelledEvent {system : System} (hproxy : system.proxy.active = true ∧
      system.proxy.suspended = false) (hcommands : system.mailbox.commands = [])
    (hresults : system.mailbox.results = []) (hopen : system.mailbox.closed = false)
    (hworker : system.worker = .ready) (hwork : system.mailbox.work = u64Max)
    (hloaded : system.loaded = true) (hlimits : system.mailbox.maximumInputBytes = 262144 ∧
      system.mailbox.maximumPendingEvents = 64 ∧ system.mailbox.maximumPendingResults = 16) :
    ∃ last, run step system cancelledEvent = some last ∧
      last.mailbox.calls = system.mailbox.calls ++ [.event exampleEvent, .cancel] ∧
      ∃ entry ∈ last.drained, entry.1.call = system.mailbox.next ∧
        entry.2 = system.mailbox.next + 2 := by
  obtain ⟨⟨hostGeneration, active, suspended, closed, generated⟩, mailbox, worker, loaded,
    drained⟩ := system
  obtain ⟨lifecycle, work, commands, results, inFlight, maximumPendingEvents, maximumPendingResults,
    maximumInputBytes, shut, workerAlive, calls⟩ := mailbox
  obtain ⟨rfl, rfl⟩ := hproxy
  obtain ⟨rfl, rfl, rfl⟩ := hlimits
  subst hcommands hresults hopen hworker hwork hloaded
  let result : WorkerResult := ⟨calls.length, lifecycle, some u64Max,
    hostGeneration.get (generated rfl), .event exampleEvent, .ok .default⟩
  let command : WorkerCommand := .event calls.length lifecycle u64Max
    (hostGeneration.get (generated rfl)) exampleEvent
  let history := calls ++ [.event exampleEvent] ++ [.cancel]
  let place (commands : List WorkerCommand) (results : List WorkerResult) (inFlight : Nat)
      (worker : Worker) (calls : List Call) (drained : List (WorkerResult × Nat)) : System :=
    ⟨⟨hostGeneration, true, false, closed, generated⟩, ⟨lifecycle, u64Max, commands, results,
      inFlight, 64, 16, 262144, false, workerAlive, calls⟩, worker, true, drained⟩
  let lowered := saturatingAdd inFlight 1 - 1
  have hrun : run step (place [] [] inFlight .ready calls drained) (cancelledEvent.take 5) =
      some (place [] [] lowered (.lowered command (some result)) history drained) := rfl
  have hretain : step (place [] [] lowered (.lowered command (some result)) history drained)
      (.work none) = some (place [] [result] lowered .ready history drained) := by
    simp [step, System.work, place, MailboxState.coalesce, MailboxState.replaced, System.offer,
      MailboxState.mustWait, MailboxState.retain, MailboxState.isCurrent, result, Worker.after,
      command, WorkerCommand.isUnload, WorkerResult.coalescingKey, ExtensionUpdate.default,
      exampleEvent, eventCoalescingKey]
  have hdrain : step (place [] [result] lowered .ready history drained) (.drain 1) =
      some (place [] [] lowered .ready history (drained ++ [(result, history.length)])) := by
    simp [step, System.drainDeferredUpdates, place, MailboxState.drain, MailboxState.drainFrom,
      MailboxState.isCurrent, result, System.notify, Worker.notified, MailboxState.next]
  refine ⟨_, run_append hrun (run_cons.mpr ⟨_, hretain, run_cons.mpr ⟨_, hdrain, rfl⟩⟩), ?_,
    (result, history.length), mem_concat_self, rfl, ?_⟩
  · simp [history, place]
  · simp [history, MailboxState.next]

/-- At a saturated counter of epochs, the result of an event is drained after it was cancelled. -/
theorem cancelledEvent_drained : ∃ actions system, Reaches .default actions system ∧
    ∃ entry ∈ system.drained, ∃ envelope k,
      system.mailbox.calls[entry.1.call]? = some (.event envelope) ∧ entry.1.call < k ∧
      k < entry.2 ∧ system.mailbox.calls[k]? = some .cancel := by
  obtain ⟨start, hstart, hcommands, hresults, hopen, hworker, hwork, hloaded, hproxy, hlimits⟩ :
      ∃ start, Reaches .default activated start ∧ start.mailbox.commands = [] ∧
        start.mailbox.results = [] ∧ start.mailbox.closed = false ∧ start.worker = .ready ∧
        start.mailbox.work = 1 ∧ start.loaded = true ∧
        (start.proxy.active = true ∧ start.proxy.suspended = false) ∧
        start.mailbox.maximumInputBytes = 262144 ∧ start.mailbox.maximumPendingEvents = 64 ∧
        start.mailbox.maximumPendingResults = 16 :=
    ⟨_, rfl, rfl, rfl, rfl, rfl, rfl, rfl, ⟨rfl, rfl⟩, rfl, rfl, rfl⟩
  obtain ⟨n, hn⟩ : ∃ n, 1 + n = u64Max := ⟨u64Max - 1, by decide⟩
  have hcancels := @run_cancels n start hcommands hresults hopen hworker (by omega)
  have hsaturated : min (start.mailbox.work + n) u64Max = u64Max := by omega
  obtain ⟨last, hlast, hcalls, entry, hentry, hnumber, hbefore⟩ :=
    @run_cancelledEvent (start.cancelled n) hproxy hcommands hresults hopen hworker hsaturated
      hloaded hlimits
  generalize start.cancelled n = many at hcancels hlast hcalls hnumber hbefore
  refine ⟨_, last, run_append hstart (run_append hcancels hlast), entry, hentry, exampleEvent,
    entry.1.call + 1, ?_, Nat.lt_succ_self _, by omega, ?_⟩
  · rw [hcalls, hnumber, MailboxState.next, getElem?_append_right le_rfl, Nat.sub_self]
    rfl
  · rw [hcalls, hnumber, MailboxState.next, getElem?_append_right (Nat.le_add_right _ 1),
      Nat.add_sub_cancel_left]
    rfl

end KeyReader.Component
