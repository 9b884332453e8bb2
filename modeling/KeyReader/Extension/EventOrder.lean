import KeyReader.Extension.Edits

/-! The order of the events: the queue holds them as they were numbered, a tick takes the first that
are due, and no event is dispatched in the tick that enqueues it. -/

namespace KeyReader.Extension

open Machine List Option Transition

/-- What one tick enqueues: consecutive numbers, until the counter is full, and one tick from which
the events may be dispatched.  `last` is the number of the next event. -/
inductive Numbered (eligible : Nat) : Nat → List QueuedEvent → Nat → Prop
  | nil (sequence : Nat) : Numbered eligible sequence [] sequence
  | cons {event : QueuedEvent} {events : List QueuedEvent} {first last : Nat}
      (hsequence : event.envelope.sequence = first) (heligible : event.eligibleTick = eligible)
      (hrest : Numbered eligible (saturatingAdd first 1) events last) :
      Numbered eligible first (event :: events) last

variable {events : List QueuedEvent} {first last : Nat}

theorem Numbered.append {eligible middle : Nat} {more : List QueuedEvent}
    (h : Numbered eligible first events middle) (hmore : Numbered eligible middle more last) :
    Numbered eligible first (events ++ more) last := by
  induction h with
  | nil => exact hmore
  | cons hsequence heligible _ ih => exact .cons hsequence heligible (ih hmore)

theorem Numbered.eligible {eligible : Nat} (h : Numbered eligible first events last) :
    ∀ event ∈ events, event.eligibleTick = eligible := by
  induction h with
  | nil => exact forall_mem_nil _
  | cons _ heligible _ ih => exact forall_mem_cons.mpr ⟨heligible, ih⟩

theorem saturatingAdd_min (count : Nat) :
    saturatingAdd (min count u64Max) 1 = min (count + 1) u64Max := by
  unfold saturatingAdd
  generalize u64Max = limit
  omega

theorem Numbered.sequence {eligible count : Nat} (h : Numbered eligible first events last)
    (hfirst : first = min count u64Max) :
    (∀ i (hi : i < events.length), events[i].envelope.sequence = min (count + i) u64Max) ∧
      last = min (count + events.length) u64Max := by
  induction h generalizing count with
  | nil => exact ⟨fun i hi => absurd hi (Nat.not_lt_zero i), hfirst⟩
  | cons hsequence _ _ ih =>
    obtain ⟨hrest, hlast⟩ := @ih (count + 1) (by rw [hfirst, saturatingAdd_min])
    refine ⟨fun i hi => ?_, by rw [hlast, length_cons, Nat.add_right_comm, Nat.add_assoc]⟩
    cases i with
    | zero =>
      rw [Nat.add_zero]
      exact hsequence.trans hfirst
    | succ i =>
      rw [getElem_cons_succ, hrest i (Nat.lt_of_succ_lt_succ hi), Nat.add_right_comm, Nat.add_assoc]

/-- The order of the ticks from which two events may be dispatched. -/
abbrev NoLater (event other : QueuedEvent) : Prop := event.eligibleTick ≤ other.eligibleTick

theorem selectEvents_none {tick budget : Nat}
    (h : budget = 0 ∨ ∀ event ∈ events, tick < event.eligibleTick) :
    selectEvents tick budget events = ([], events) := by
  induction events with
  | nil => rfl
  | cons event events ih =>
    rw [selectEvents, if_neg]
    · rw [ih (h.imp_right fun h other hmem => h other (mem_cons_of_mem _ hmem))]
    · rintro ⟨heligible, hbudget⟩
      rcases h with h | h
      · omega
      · exact Nat.not_lt.mpr heligible (h event mem_cons_self)

theorem selectEvents_append {tick : Nat} (budget : Nat) (h : events.Pairwise NoLater) :
    (selectEvents tick budget events).1 ++ (selectEvents tick budget events).2 = events := by
  induction events generalizing budget with
  | nil => rfl
  | cons event events ih =>
    obtain ⟨hfirst, hrest⟩ := pairwise_cons.mp h
    by_cases hselected : event.eligibleTick ≤ tick ∧ 0 < budget
    · rw [selectEvents, if_pos hselected]
      exact congrArg (event :: ·) (ih _ hrest)
    · rw [selectEvents_none]
      · rfl
      · by_cases hbudget : budget = 0
        · exact .inl hbudget
        · have hlate : tick < event.eligibleTick := by
            by_contra hdue
            exact hselected ⟨by omega, by omega⟩
          exact .inr (forall_mem_cons.mpr
            ⟨hlate, fun other hmem => Nat.lt_of_lt_of_le hlate (hfirst other hmem)⟩)

theorem selectEvents_spec (tick budget : Nat) (events : List QueuedEvent) :
    (selectEvents tick budget events).1.length ≤ budget ∧
      (selectEvents tick budget events).1.Sublist events ∧
      ∀ event ∈ (selectEvents tick budget events).1, event.eligibleTick ≤ tick := by
  induction events generalizing budget with
  | nil => exact ⟨Nat.zero_le _, .refl _, forall_mem_nil _⟩
  | cons event events ih =>
    rw [selectEvents]
    split
    · rename_i h
      obtain ⟨hlength, hsublist, hdue⟩ := ih (budget - 1)
      refine ⟨?_, hsublist.cons_cons event, forall_mem_cons.mpr ⟨h.1, hdue⟩⟩
      rw [length_cons]
      omega
    · obtain ⟨hlength, hsublist, hdue⟩ := ih budget
      exact ⟨hlength, hsublist.cons event, hdue⟩

variable {enqueued : List QueuedEvent}

namespace ExtensionHost

variable {G : Type}

/-- Between the two hosts events may have left the queue, and numbered ones entered at its end. -/
structure Feeds (host next : ExtensionHost G) : Prop where
  tick : next.tick = host.tick
  enqueued : ∃ enqueued, Numbered (saturatingAdd host.tick 1) host.nextEventSequence enqueued
    next.nextEventSequence ∧ next.queue.Sublist (host.queue ++ enqueued)

variable {host next : ExtensionHost G}

namespace Feeds

theorem of_sublist (htick : next.tick = host.tick)
    (hsequence : next.nextEventSequence = host.nextEventSequence)
    (hqueue : next.queue.Sublist host.queue) : Feeds host next :=
  ⟨htick, [], hsequence ▸ .nil _, by rwa [append_nil]⟩

theorem of_aside (h : Aside host next) : Feeds host next :=
  of_sublist h.tick h.sequence (h.queue ▸ .refl _)

theorem refl (host : ExtensionHost G) : Feeds host host := of_aside (.refl host)

theorem trans {middle : ExtensionHost G} (first : Feeds host middle) (second : Feeds middle next) :
    Feeds host next := by
  obtain ⟨htick, enqueued, hnumbered, hqueue⟩ := first
  obtain ⟨htick', more, hmore, hqueue'⟩ := second
  rw [htick] at hmore
  refine ⟨htick'.trans htick, enqueued ++ more, hnumbered.append hmore, ?_⟩
  rw [← append_assoc]
  exact hqueue'.trans (hqueue.append (.refl more))

variable [NativeExtension G]

theorem suspendGuest (host : ExtensionHost G) (extension : ExtensionId) (reason : String) :
    Feeds host (host.suspendGuest extension reason) := by
  unfold ExtensionHost.suspendGuest
  split
  · exact refl host
  · exact of_sublist rfl rfl (.refl _)

omit [NativeExtension G] in
theorem dropWork (host : ExtensionHost G) (extension : ExtensionId) :
    Feeds host (host.dropWork extension) :=
  of_sublist rfl rfl filter_sublist

theorem of_ripple (h : Ripple host next) : Feeds host next := by
  cases h with
  | violation | capabilities | cause => exact of_sublist rfl rfl (.refl _)
  | push =>
    refine ⟨rfl, _, ?_, .refl _⟩
    exact .cons rfl rfl (.nil _)
  | @withdraw extension record reason =>
    have hchanged : Feeds (host.suspendGuest extension reason)
        { host.suspendGuest extension reason with
          registry := host.registry.insert extension { record with state := .suspended } } :=
      of_sublist rfl rfl (.refl _)
    exact (suspendGuest host extension reason).trans (hchanged.trans (dropWork _ extension))

theorem of_ripples (h : Ripples host next) : Feeds host next := by
  induction h with
  | refl => exact refl host
  | tail _ hlast ih => exact ih.trans (of_ripple hlast)

variable [Platform]

theorem reconcile (host : ExtensionHost G) :
    Feeds host host.reconcileActiveCapabilities.broadcastCapabilityChanges :=
  of_ripples ((Ripples.reconcileActiveCapabilities host).trans
    (Ripples.broadcastCapabilityChanges _))

theorem failDeferredRuntime (host : ExtensionHost G) (extension : ExtensionId) :
    Feeds host (host.failDeferredRuntime extension) := by
  have hremoved : Feeds host ((host.dropWork extension).removeRuntime extension) :=
    (dropWork host extension).trans (of_sublist rfl rfl (.refl _))
  exact hremoved.trans ((of_aside (.transitionOrIgnore ..)).trans (reconcile _))

theorem of_change {checked : Prop} (h : Change checked host next) : Feeds host next := by
  cases h with
  | cause hcause => exact of_ripples (Ripples.childCause hcause)
  | violation extension message => exact of_ripples (Ripples.recordViolation ..)
  | enqueue => exact of_ripples (Ripples.enqueueEventInternal ..)
  | fail => exact failDeferredRuntime ..
  | guest | patch | accept | snapshot | restore => exact of_sublist rfl rfl (.refl _)

theorem of_changes (h : Changes False host next) : Feeds host next := by
  induction h with
  | refl => exact refl host
  | tail _ hlast ih => exact ih.trans (of_change hlast)

theorem arbitrateUpdate (host : ExtensionHost G) (extension : ExtensionId)
    (generation : GenerationId) (cause : CauseContext) (update : ExtensionUpdate)
    (accepted : List AcceptedEffect) :
    Feeds host (host.arbitrateUpdate extension generation cause update accepted).1 :=
  of_changes (Handles.arbitrateUpdate ..).changes

theorem startRuntime (host : ExtensionHost G) (record : PackageRecord) (context : ActivationContext)
    (guest : Option G) (subscriptions : List EventSubscription) (update : ExtensionUpdate) :
    Feeds host (host.startRuntime record context guest subscriptions update).2 := by
  unfold ExtensionHost.startRuntime
  dsimp only
  split
  · exact refl host
  · rename_i active hactive
    have hrestored := (of_aside (.transition hactive)).trans
      (of_aside (.restoreSettings active context.extension record.manifest))
    generalize active.restoreSettings context.extension record.manifest = restored at hrestored ⊢
    refine hrestored.trans (.trans (.trans ?_ (arbitrateUpdate ..))
      (of_ripples (Ripples.broadcastCapabilityChanges _)))
    exact of_sublist rfl rfl (.refl _)

theorem activateValidated (host : ExtensionHost G) (extension : ExtensionId)
    (record : PackageRecord) : Feeds host (host.activateValidated extension record).2 := by
  unfold ExtensionHost.activateValidated
  split
  · exact refl host
  · dsimp only
    have hnumbered : Feeds host host.freshGeneration.2.rootCause.2 := of_sublist rfl rfl (.refl _)
    split
    · exact hnumbered.trans (of_aside (.transitionOrIgnore ..))
    · exact hnumbered.trans (startRuntime ..)

theorem activate (host : ExtensionHost G) (extension : ExtensionId) :
    Feeds host (host.activate extension).2 := by
  unfold ExtensionHost.activate
  split
  · exact refl host
  split
  · split
    · exact refl host
    · exact (of_aside (.transition ‹_›)).trans (activateValidated ..)
  split
  · exact refl host
  · exact activateValidated ..

theorem of_edit {own : ExtensionId → Prop} (h : Edit own host next) : Feeds host next := by
  cases h with
  | ripples h => exact of_ripples h
  | changes h => exact of_changes h
  | plain h => exact of_sublist h.tick h.sequence h.queue
  | settings h => exact of_aside (.restoreExtensionSettings h)
  | transition _ _ h => exact of_aside (.transition h)
  | stop _ hunloading h =>
    have haside := (Aside.transition hunloading).trans ((Aside.closeRuntime ..).trans (.transition h))
    exact (of_aside haside).trans (dropWork ..)
  | runtime | decisions | forget => exact of_sublist rfl rfl (.refl _)
  | invalidate => exact of_sublist rfl rfl (nil_sublist _)

theorem of_edits {own : ExtensionId → Prop} (h : Edits own host next) : Feeds host next := by
  induction h with
  | refl => exact refl host
  | tail _ hlast ih => exact ih.trans (of_edit hlast)

end Feeds

variable [Platform] [NativeExtension G]

theorem Feeds.beforeSelection (host : ExtensionHost G) : Feeds host.advance host.beforeSelection :=
  of_changes (Changes.beforeSelection host False.elim)

theorem selection_sublist (host : ExtensionHost G) (htick : host.tick + 1 < u64Max) :
    host.selection.Sublist host.queue := by
  obtain ⟨hadvanced, enqueued, hnumbered, hqueue⟩ := Feeds.beforeSelection host
  obtain ⟨-, hselected, hdue⟩ := selectEvents_spec host.beforeSelection.tick host.selectionBudget
    host.beforeSelection.queue
  obtain ⟨early, late, heq, hearly, hlate⟩ := sublist_append_iff.mp (hselected.trans hqueue)
  have hnone : late = [] := by
    refine eq_nil_iff_forall_not_mem.mpr fun event hmem => ?_
    have hbefore := hdue event (heq ▸ mem_append_right early hmem)
    have hafter := hnumbered.eligible event (hlate.subset hmem)
    rw [hadvanced] at hbefore
    simp only [advance, saturatingAdd] at hbefore hafter
    omega
  rw [hnone, append_nil] at heq
  show (selectEvents _ _ _).1.Sublist host.queue
  rw [heq]
  exact hearly

theorem config_of_change {checked : Prop} (h : Change checked host next) :
    next.config = host.config := by
  cases h with
  | cause hcause => exact (Quiet.childCause hcause).config
  | violation extension message => exact (Quiet.recordViolation ..).config
  | enqueue => exact (Quiet.enqueueEventInternal ..).config
  | @fail extension =>
    have hfailed : ∀ middle : ExtensionHost G,
        (middle.transitionOrIgnore extension .failed).config = middle.config := by
      intro middle
      unfold transitionOrIgnore
      split
      · rename_i next h
        obtain ⟨record, -, -, rfl⟩ := transition_eq_ok.mp h
        rfl
      · rfl
    have hreconciled := (Quiet.reconcileActiveCapabilities (((host.dropWork extension).removeRuntime
      extension).transitionOrIgnore extension .failed)).trans (.broadcastCapabilityChanges _)
    exact hreconciled.config.trans (hfailed _)
  | guest | patch | accept | snapshot | restore => rfl

theorem config_beforeSelection (host : ExtensionHost G) :
    host.beforeSelection.config = host.config := by
  have hchanges : Changes False host.advance host.beforeSelection :=
    Changes.beforeSelection host False.elim
  generalize host.beforeSelection = next at hchanges
  induction hchanges with
  | refl => rfl
  | tail _ hlast ih => exact (config_of_change hlast).trans ih

theorem length_selection (host : ExtensionHost G) :
    host.selection.length ≤ host.config.maximumEventsPerTick := by
  have hlength := (selectEvents_spec host.beforeSelection.tick host.selectionBudget
    host.beforeSelection.queue).1
  refine Nat.le_trans hlength ?_
  rw [selectionBudget, config_beforeSelection]
  omega

/-- All events that were ever enqueued, in the order of their numbers.  Those that were dispatched,
and then those in the queue, are some of them. -/
structure Ordered (host : ExtensionHost G) (dispatched enqueued : List QueuedEvent) : Prop where
  sublist : (dispatched ++ host.queue).Sublist enqueued
  sequence : ∀ i (hi : i < enqueued.length), enqueued[i].envelope.sequence = min (i + 1) u64Max
  next : host.nextEventSequence = min (enqueued.length + 1) u64Max
  eligible : enqueued.Pairwise NoLater
  bound : ∀ event ∈ enqueued, event.eligibleTick ≤ saturatingAdd host.tick 1

variable {dispatched : List QueuedEvent}

omit [Platform] [NativeExtension G] in
theorem Ordered.feeds (h : Ordered host dispatched enqueued) (hfeeds : Feeds host next) :
    ∃ enqueued, Ordered next dispatched enqueued := by
  obtain ⟨htick, more, hnumbered, hqueue⟩ := hfeeds
  obtain ⟨hsequence, hlast⟩ := hnumbered.sequence h.next
  refine ⟨enqueued ++ more, ?_, fun i hi => ?_, ?_, ?_, ?_⟩
  · refine ((List.Sublist.refl dispatched).append hqueue).trans ?_
    rw [← append_assoc]
    exact h.sublist.append (.refl _)
  · rw [getElem_append]
    split
    · exact h.sequence i _
    · rename_i hge
      rw [hsequence]
      exact congrArg (min · u64Max) (by omega)
  · rw [hlast, length_append]
    exact congrArg (min · u64Max) (by omega)
  · refine pairwise_append.mpr ⟨h.eligible, ?_, fun event hmem other hother => ?_⟩
    · exact pairwise_of_forall_mem_list fun event hmem other hother =>
        (hnumbered.eligible event hmem).trans_le (hnumbered.eligible other hother).ge
    · exact (h.bound event hmem).trans_eq (hnumbered.eligible other hother).symm
  · rw [htick]
    intro event hmem
    rcases mem_append.mp hmem with hmem | hmem
    · exact h.bound event hmem
    · exact (hnumbered.eligible event hmem).le

omit [Platform] [NativeExtension G] in
theorem Ordered.advance (h : Ordered host dispatched enqueued) :
    Ordered host.advance dispatched enqueued where
  __ := h
  bound event hmem := by
    have hbound := h.bound event hmem
    simp only [ExtensionHost.advance, saturatingAdd] at hbound ⊢
    omega

omit [Platform] [NativeExtension G] in
/-- The selected events are the first of the queue. -/
theorem Ordered.dequeue (h : Ordered host dispatched enqueued) (budget : Nat) :
    Ordered (host.dequeue budget)
      (dispatched ++ (selectEvents host.tick budget host.queue).1) enqueued where
  __ := h
  sublist := by
    have hqueue := (h.eligible.sublist h.sublist).sublist (sublist_append_right _ _)
    show (dispatched ++ (selectEvents host.tick budget host.queue).1 ++
      (selectEvents host.tick budget host.queue).2).Sublist enqueued
    rw [append_assoc, selectEvents_append budget hqueue]
    exact h.sublist

theorem Ordered.processTick (h : Ordered host dispatched enqueued) :
    ∃ enqueued, Ordered host.processTick.1 (dispatched ++ host.selection) enqueued := by
  obtain ⟨before, hbefore⟩ := h.advance.feeds (Feeds.beforeSelection host)
  obtain ⟨report, heq⟩ := host.processTick_eq
  rw [heq]
  exact (hbefore.dequeue host.selectionBudget).feeds
    (.of_changes (.dispatch host.selection (_, report, [])))

end ExtensionHost

namespace Session

variable {G : Type} [Platform] [NativeExtension G]

def dispatchedBy (session : Session G) : Operation G → List QueuedEvent
  | .processTick => session.host.selection
  | _ => []

/-- The events that a run dispatches, in its order. -/
def dispatched : Session G → List (Operation G) → List QueuedEvent
  | _, [] => []
  | session, operation :: operations => session.dispatchedBy operation ++
      (session.step operation).elim [] fun next => next.dispatched operations

omit [Platform] [NativeExtension G] in
theorem feeds_after (session : Session G) {result : Except HostError (ExtensionHost G)}
    (h : ∀ next, result = .ok next → ExtensionHost.Feeds session.host next) :
    ExtensionHost.Feeds session.host (session.after result).host := by
  cases result with
  | ok next => exact h next rfl
  | error error => exact .refl session.host

open ExtensionHost
theorem ordered_step {session next : Session G} {operation : Operation G}
    {earlier : List QueuedEvent} (h : Ordered session.host earlier enqueued)
    (hstep : session.step operation = some next) :
    ∃ enqueued, Ordered next.host (earlier ++ session.dispatchedBy operation) enqueued := by
  by_cases htick : operation = .processTick
  · subst htick
    cases hstep
    exact h.processTick
  have hfeeds : Feeds session.host next.host := by
    cases operation
    case processTick => exact absurd rfl htick
    case install =>
      exact some.inj hstep ▸ session.feeds_after fun _ h => .of_aside (.install h)
    case replace =>
      exact some.inj hstep ▸ session.feeds_after fun _ h => .of_aside (.replace h)
    case activate extension =>
      have hactivated := Feeds.activate session.host extension
      simp only [step] at hstep
      split at hstep <;> rename_i heq <;> rw [heq] at hactivated <;>
        exact some.inj hstep ▸ hactivated
    all_goals exact .of_edits (edits_step rfl hstep)
  have hnone : session.dispatchedBy operation = [] := by
    cases operation <;> first | rfl | exact absurd rfl htick
  rw [hnone, append_nil]
  exact h.feeds hfeeds

theorem ordered_run {session next : Session G} {operations : List (Operation G)}
    {earlier : List QueuedEvent} (h : ExtensionHost.Ordered session.host earlier enqueued)
    (hrun : Transition.run step session operations = some next) :
    ∃ enqueued, ExtensionHost.Ordered next.host (earlier ++ session.dispatched operations)
      enqueued := by
  induction operations generalizing session earlier enqueued with
  | nil =>
    obtain rfl : session = next := by simpa [Transition.run] using hrun
    exact ⟨enqueued, by rwa [dispatched, append_nil]⟩
  | cons operation operations ih =>
    obtain ⟨middle, hstep, hrest⟩ := run_cons.mp hrun
    obtain ⟨enqueued, hmiddle⟩ := ordered_step h hstep
    rw [dispatched, hstep, elim_some, ← append_assoc]
    exact ih hmiddle hrest

/-- The events of a run are dispatched in the order of their numbers, each at most once: those that
were dispatched, and then those in the queue, are some of the events that were enqueued, in their
order.  A tick dispatches no more events than the host admits, and only events that were in the queue
before it, as long as the counter of the ticks is not full. -/
theorem events_in_order (config : HostConfig) (operations : List (Operation G))
    (session : Session G) (hrun : Transition.run step (.new config) operations = some session) :
    (∃ enqueued : List QueuedEvent,
      ((Session.new config).dispatched operations ++ session.host.queue).Sublist enqueued ∧
      ∀ i (hi : i < enqueued.length), enqueued[i].envelope.sequence = min (i + 1) u64Max) ∧
    ((Session.new config).dispatched operations ++ session.host.queue).Pairwise
      (fun event later => event.envelope.sequence ≤ later.envelope.sequence ∧
        (event.envelope.sequence < u64Max → event.envelope.sequence < later.envelope.sequence) ∧
        event.eligibleTick ≤ later.eligibleTick) ∧
    Transition.Along step (fun session operation => operation = .processTick →
      (session.dispatchedBy operation).length ≤ session.host.config.maximumEventsPerTick ∧
      (session.host.tick + 1 < u64Max →
        (session.dispatchedBy operation).Sublist session.host.queue)) (.new config) operations := by
  have hnew : ExtensionHost.Ordered (Session.new config : Session G).host [] [] :=
    ⟨.slnil, fun i hi => absurd hi (Nat.not_lt_zero i), rfl, .nil, forall_mem_nil _⟩
  obtain ⟨enqueued, hordered⟩ := ordered_run hnew hrun
  have hsublist := hordered.sublist
  rw [nil_append] at hsublist
  refine ⟨⟨enqueued, hsublist, hordered.sequence⟩, ?_, ?_⟩
  · have hnumbers : enqueued.Pairwise fun event later =>
        event.envelope.sequence ≤ later.envelope.sequence ∧
        (event.envelope.sequence < u64Max →
          event.envelope.sequence < later.envelope.sequence) := by
      refine pairwise_iff_getElem.mpr fun i j hi hj hij => ?_
      rw [hordered.sequence i hi, hordered.sequence j hj]
      generalize u64Max = limit
      omega
    exact (hnumbers.and hordered.eligible).sublist hsublist |>.imp
      fun ⟨⟨hle, hlt⟩, heligible⟩ => ⟨hle, hlt, heligible⟩
  · refine Transition.Along.of_forall (fun session operation htick => ?_) _ _
    subst htick
    exact ⟨session.host.length_selection, session.host.selection_sublist⟩

end Session

namespace Session

/-- An adapter in the background that answers its activation with an effect of another extension. -/
@[reducible] def lateAnswer : NativeExtension Nat where
  subscriptions _ := []
  activate generation _ := (.ok .default, generation)
  handleEvent generation _ := (.ok .default, generation)
  updateDelivery _ := .deferred
  drainDeferredUpdates generation _ :=
    if generation = 0 then ([], 0)
    else ([{ generation, call := .activation ⟨⟨0, 1⟩, none, 0⟩
             result := .ok ⟨none, [⟨⟨"com.example.other", "copy"⟩, ⟨⟨0, 1⟩, none, 0⟩,
               .notify "done" .success⟩]⟩ }], 0)
  pendingDeferredWork _ := 0
  invalidateDocumentScope := id
  suspend generation _ := generation
  resume generation _ := (.ok .default, generation)

attribute [local instance] exactVersions lateAnswer

/-- An extension whose adapter works in the background. -/
def startBackground : List (Operation Nat) :=
  [.registerNativeAdapter ⟨"com.example.reader", "background"⟩ id,
    .install { declarativeManifest "com.example.reader" ⟨[], [], []⟩ with
      entrypoint := .nativeBuiltin ⟨"com.example.reader", "background"⟩ none } ⟨.bundled⟩,
    .activate "com.example.reader"]

theorem events_in_order_background : ∃ session,
    Transition.run step (.new .default) (startBackground ++ [.processTick]) = some session ∧
    ((Session.new .default).dispatched (startBackground ++ [.processTick]) ++
        session.host.queue).Pairwise fun event later =>
      event.envelope.sequence ≤ later.envelope.sequence ∧
        (event.envelope.sequence < u64Max → event.envelope.sequence < later.envelope.sequence) ∧
        event.eligibleTick ≤ later.eligibleTick := by
  have hrun : (Transition.run step (.new .default)
      (startBackground ++ [.processTick])).isSome := by decide +kernel
  obtain ⟨session, hrun⟩ := isSome_iff_exists.mp hrun
  exact ⟨session, hrun, (events_in_order .default _ session hrun).2.1⟩

/-- The next tick dispatches an event that it enqueues itself: one whose number is not given yet. -/
def dispatchesItsOwn (session : Session Nat) : Bool :=
  session.host.selection.any fun event =>
    session.host.nextEventSequence ≤ event.envelope.sequence

def idle (tick : Nat) : Session Nat := ⟨{ ExtensionHost.new .default with tick }, []⟩

theorem run_idle {tick count : Nat} (h : tick + count ≤ u64Max) :
    Transition.run step (idle tick) (List.replicate count .processTick) =
      some (idle (tick + count)) := by
  induction count generalizing tick with
  | zero => rfl
  | succ count ih =>
    have hstep : step (idle tick) .processTick = some (idle (saturatingAdd tick 1)) := rfl
    have hnext : saturatingAdd tick 1 = tick + 1 := Nat.min_eq_left (by omega)
    rw [replicate_succ, run_cons]
    refine ⟨idle (tick + 1), hnext ▸ hstep, ?_⟩
    rw [ih (by omega)]
    exact congrArg (fun tick => some (idle tick)) (by omega)

/-- When the counter of the ticks is full, a tick dispatches an event that an answer of an adapter
enqueues in it. -/
theorem dispatchesItsOwn_afterAllTicks : ∃ session, Transition.run step (.new .default)
      (List.replicate (u64Max - 1) .processTick ++ startBackground) = some session ∧
    dispatchesItsOwn session := by
  have hidle : Transition.run step (.new .default) (List.replicate (u64Max - 1) .processTick) =
      some (idle (0 + (u64Max - 1))) := @run_idle 0 _ (by omega)
  have hlast : (Transition.run step (idle (0 + (u64Max - 1))) startBackground).any
      dispatchesItsOwn = true := by decide +kernel
  obtain ⟨session, hrun, hown⟩ := (any_eq_true _ _).mp hlast
  exact ⟨session, run_append hidle hrun, hown⟩

end Session

end KeyReader.Extension
