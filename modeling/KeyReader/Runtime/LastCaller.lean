import KeyReader.Runtime.Callers
import KeyReader.Runtime.Replacement

/-! The latest call of each class decides what is pending once all commands are accepted, provided
that commands are sent in the order of the calls and displace nothing. -/

namespace KeyReader.Runtime

open List Option Bool Table

namespace WorkQueue

variable {S : Type} {queue : WorkQueue S} {workClass : WorkClass} {source capacity : Nat}

theorem put_of_room {item : Work} (habsent : queue.pending.lookup (item.key workClass) = none)
    (hroom : queue.pending.keys.length + 1 ≤ capacity) :
    (queue.put workClass source capacity item).2 =
      (queue.insertWork workClass source item).2 := by
  have hlength := length_keys_insert_of_lookup habsent (queue.entry workClass source item)
  unfold put insertWork allocateSequence
  dsimp only
  rw [habsent]
  rw [evict_of_le]
  exact hlength.le.trans hroom

/-- What a batch leaves pending that displaces nothing. -/
structure Adds (start : WorkQueue S) (workClass : WorkClass) (source : Nat) (work : List Work)
    (next : WorkQueue S) : Prop where
  items : ∀ item ∈ work, ∃ entry, next.pending.lookup (item.key workClass) = some entry ∧
    entry.kind = .engine item ∧ entry.cancellation = source ∧ entry.workClass = some workClass
  kept : ∀ key, (∀ item ∈ work, key ≠ item.key workClass) →
    next.pending.lookup key = start.pending.lookup key
  length : next.pending.keys.length = start.pending.keys.length + work.length
  states : next.states = start.states

theorem putAll_adds {start : WorkQueue S} {work : List Work} (source : Nat)
    (hnodup : (work.map (·.key workClass)).Nodup)
    (habsent : ∀ item ∈ work, start.pending.lookup (item.key workClass) = none)
    (hroom : start.pending.keys.length + work.length ≤ capacity) :
    start.Adds workClass source work (start.putAll workClass source capacity work).2 := by
  induction work using List.reverseRecOn with
  | nil => exact ⟨forall_mem_nil _, fun _ _ => rfl, rfl, rfl⟩
  | append_singleton work item ih =>
    rw [length_append, length_singleton] at hroom
    rw [map_append, map_singleton, nodup_append] at hnodup
    obtain ⟨hbefore, -, hfresh⟩ := hnodup
    have hne : ∀ other ∈ work, item.key workClass ≠ other.key workClass := fun other hother heq =>
      hfresh _ (mem_map_of_mem hother) _ (mem_singleton_self _) heq.symm
    have hadds := ih hbefore (forall_mem_append.mp habsent).1 (by omega)
    have hlength := hadds.length
    have hitem : (start.putAll workClass source capacity work).2.pending.lookup
        (item.key workClass) = none :=
      (hadds.kept _ hne).trans (habsent item mem_concat_self)
    rw [putAll_snoc, put_of_room hitem (by omega)]
    generalize (start.putAll workClass source capacity work).2 = queue at hadds hitem hlength
    have hlookup : ∀ key, (queue.insertWork workClass source item).2.pending.lookup key =
        if key = item.key workClass then some (queue.entry workClass source item)
        else queue.pending.lookup key := fun key => lookup_insert ..
    refine ⟨?_, ?_, ?_, hadds.states⟩
    · intro other hother
      rw [hlookup]
      rcases mem_append.mp hother with hother | hother
      · rw [if_neg (Ne.symm (hne other hother))]
        exact hadds.items other hother
      · obtain rfl := mem_singleton.mp hother
        rw [if_pos rfl]
        exact ⟨_, rfl, rfl, rfl, rfl⟩
    · intro key hkey
      rw [hlookup, if_neg (hkey item mem_concat_self)]
      exact hadds.kept key (forall_mem_append.mp hkey).1
    · have hinsert := length_keys_insert_of_lookup hitem (queue.entry workClass source item)
      rw [length_append, length_singleton]
      show (queue.pending.insert (item.key workClass)
        (queue.entry workClass source item)).keys.length = _
      omega

end WorkQueue

def IssuedCall.Asks {S : Type} (issued : IssuedCall S) (key : WorkKey) (kind : PendingKind S) :
    Prop :=
  match issued.call with
  | .opening source => key = .opening ∧ kind = .opening source
  | .replace workClass work => ∃ item ∈ work, key = item.key workClass ∧ kind = .engine item

variable {lane : Option WorkClass}

namespace IssuedCall

variable {S : Type} {issued : IssuedCall S} {key : WorkKey} {kind : PendingKind S}

theorem Asks.affects (h : issued.Asks key kind) (hvalid : issued.call.valid) :
    issued.call.affects key.workClass := by
  obtain ⟨call, cancellation⟩ := issued
  cases call with
  | opening source => rfl
  | replace workClass work =>
    obtain ⟨item, hitem, rfl, -⟩ := h
    exact Call.affects_replace.mpr (Work.workClass_key (all_eq_true.mp hvalid item hitem))

theorem Asks.affects_of_affects (h : issued.Asks key kind) (hvalid : issued.call.valid)
    {next : IssuedCall S} (hnext : next.call.affects key.workClass)
    (hlane : issued.call.affects lane) : next.call.affects lane := by
  obtain ⟨call, cancellation⟩ := issued
  cases call with
  | opening source =>
    obtain ⟨rfl, -⟩ := h
    obtain ⟨call, cancellation⟩ := next
    cases call with
    | opening source => rfl
    | replace workClass work => cases Call.affects_replace.mp hnext
  | replace workClass work =>
    have hkey := Call.affects_replace.mp (h.affects hvalid)
    have hlane' := Call.affects_replace.mp hlane
    rwa [hlane', ← hkey]

end IssuedCall

namespace WorkQueue

variable {S : Type} {queue : WorkQueue S}

/-- What is pending after a command that displaces nothing, and which sources it cancels. -/
structure Accepts (queue : WorkQueue S) (issued : IssuedCall S) (next : WorkQueue S) : Prop where
  only : ∀ key entry, issued.call.affects key.workClass → next.pending.lookup key = some entry →
    issued.Asks key entry.kind ∧ entry.cancellation = issued.cancellation ∧
      entry.workClass = key.workClass
  all : ∀ key kind, issued.Asks key kind →
    ∃ entry, next.pending.lookup key = some entry ∧ entry.kind = kind
  kept : ∀ key, ¬issued.call.affects key.workClass →
    next.pending.lookup key = queue.pending.lookup key
  cancelled : ∀ source ∈ next.states.cancelled, source ∈ queue.states.cancelled ∨
    ∃ key entry, issued.call.affects key.workClass ∧ queue.pending.lookup key = some entry ∧
      entry.cancellation = source
  made : next.states.made = queue.states.made

theorem accept_opening (queue : WorkQueue S) (capacity : Nat) (source : S) (cancellation : Nat) :
    queue.Accepts ⟨.opening source, cancellation⟩
      (queue.accept capacity ⟨.opening source, cancellation⟩) := by
  have hlookup : ∀ key, (queue.accept capacity ⟨.opening source, cancellation⟩).pending.lookup key =
      if key = .opening then some
        { sequence := queue.nextSequence, priority := DemandPriority.interactive
          workClass := none, cancellation, kind := .opening source }
      else none := fun key => (lookup_insert ..).trans (by rfl)
  refine ⟨?_, ?_, fun key haffects => absurd rfl haffects, ?_, Cancellations.made_cancelAll ..⟩
  · intro key entry _ hentry
    rw [hlookup] at hentry
    split at hentry
    · rename_i hkey
      cases hentry
      exact ⟨⟨hkey, rfl⟩, rfl, hkey ▸ rfl⟩
    · cases hentry
  · rintro key kind ⟨rfl, rfl⟩
    exact ⟨_, (hlookup _).trans (if_pos rfl), rfl⟩
  · intro cancelled hmem
    rcases Cancellations.mem_cancelAll.mp hmem with hmem | hmem
    · obtain ⟨⟨key, entry⟩, hentry, rfl⟩ := mem_map.mp hmem
      exact .inr ⟨key, entry, rfl, (mem_entries_iff ..).mp hentry, rfl⟩
    · exact .inl hmem

theorem accept_replace {capacity : Nat} {workClass : WorkClass} {work : List Work}
    (cancellation : Nat)
    (hclassed : ∀ key entry, queue.pending.lookup key = some entry →
      entry.workClass = key.workClass)
    (hfits : ∀ item ∈ work, item.fits workClass) (hnodup : (work.map (·.key workClass)).Nodup)
    (hroom : (queue.cancelClass workClass).pending.keys.length + work.length ≤ capacity) :
    queue.Accepts ⟨.replace workClass work, cancellation⟩
      (queue.accept capacity ⟨.replace workClass work, cancellation⟩) := by
  have hcleared : ∀ key, key.workClass = some workClass →
      (queue.cancelClass workClass).pending.lookup key = none := by
    intro key hkey
    refine eq_none_iff_forall_ne_some.mpr fun entry hentry => ?_
    obtain ⟨hentry, hne⟩ := (lookup_cancelClass queue workClass).mp hentry
    exact hne ((hclassed key entry hentry).trans hkey)
  have hadds := putAll_adds cancellation hnodup
    (fun item hitem => hcleared _ (Work.workClass_key (hfits item hitem))) hroom
  change (queue.cancelClass workClass).Adds workClass cancellation work
    (queue.accept capacity ⟨.replace workClass work, cancellation⟩) at hadds
  generalize queue.accept capacity ⟨.replace workClass work, cancellation⟩ = next at hadds
  refine ⟨?_, ?_, ?_, ?_, ?_⟩
  · intro key entry haffects hentry
    have hkey := Call.affects_replace.mp haffects
    by_cases hbatch : ∀ item ∈ work, key ≠ item.key workClass
    · cases hentry.symm.trans ((hadds.kept key hbatch).trans (hcleared key hkey))
    · push Not at hbatch
      obtain ⟨item, hitem, rfl⟩ := hbatch
      obtain ⟨found, hfound, hkind, hsource, hclass⟩ := hadds.items item hitem
      cases hentry.symm.trans hfound
      exact ⟨⟨item, hitem, rfl, hkind⟩, hsource, hclass.trans hkey.symm⟩
  · rintro key kind ⟨item, hitem, rfl, rfl⟩
    obtain ⟨found, hfound, hkind, -⟩ := hadds.items item hitem
    exact ⟨found, hfound, hkind⟩
  · intro key haffects
    have hkey : key.workClass ≠ some workClass := fun hkey =>
      haffects (Call.affects_replace.mpr hkey)
    rw [hadds.kept key fun item hitem heq =>
      hkey (heq ▸ Work.workClass_key (hfits item hitem))]
    refine Option.ext fun entry => (lookup_cancelClass queue workClass).trans ?_
    exact and_iff_left_of_imp fun hentry => hclassed key entry hentry ▸ hkey
  · intro source hmem
    rw [hadds.states] at hmem
    rcases (cancelled_cancelClass queue workClass).mp hmem with
      ⟨key, entry, hentry, hclass, rfl⟩ | hmem
    · refine .inr ⟨key, entry, Call.affects_replace.mpr ?_, hentry, rfl⟩
      exact (hclassed key entry hentry).symm.trans hclass
    · exact .inl hmem
  · rw [hadds.states]
    exact Cancellations.made_cancelAll ..

end WorkQueue

namespace ClientCancellations

/-- What a call does while it has the lock: it makes a source, and cancels those of the classes that
it affects. -/
structure Issues {S : Type} (client : ClientCancellations) (states : Cancellations) (call : Call S)
    (next : IssuedCall S × ClientCancellations × Cancellations) : Prop where
  issued : next.1 = ⟨call, states.made⟩
  made : next.2.2.made = states.made + 1
  cancelled : ∀ source ∈ next.2.2.cancelled, source ∈ states.cancelled ∨
    (call.affects none ∧ source ∈ client.opening) ∨
    ∃ workClass, call.affects (some workClass) ∧ client.classes.lookup workClass = some source
  opened : ∀ source ∈ next.2.1.opening, source = states.made ∨ source ∈ client.opening
  classes : ∀ workClass source, next.2.1.classes.lookup workClass = some source →
    (source = states.made ∧ ∃ work, call = .replace workClass work) ∨
      client.classes.lookup workClass = some source

theorem issue_issues {S : Type} (client : ClientCancellations) (states : Cancellations)
    (call : Call S) : client.Issues states call (client.issue call states) := by
  cases call with
  | opening source =>
    refine ⟨?_, ?_, ?_, ?_, ?_⟩
    · exact congrArg (IssuedCall.mk _) (Cancellations.made_cancelAll ..)
    · exact congrArg (· + 1) (Cancellations.made_cancelAll ..)
    · intro source hmem
      rcases Cancellations.mem_cancelAll.mp hmem with hmem | hmem
      · rcases mem_append.mp hmem with hmem | hmem
        · exact .inr (.inl ⟨rfl, mem_toList.mp hmem⟩)
        · obtain ⟨⟨workClass, source⟩, hentry, rfl⟩ := mem_map.mp hmem
          exact .inr (.inr ⟨workClass, rfl, (mem_entries_iff ..).mp hentry⟩)
      · exact .inl hmem
    · intro source hmem
      exact .inl ((mem_some.mp hmem).symm.trans (Cancellations.made_cancelAll ..))
    · intro workClass source hlookup
      cases (AList.lookup_empty _).symm.trans hlookup
  | replace workClass work =>
    refine ⟨?_, ?_, ?_, fun source hmem => .inr hmem, ?_⟩
    · exact congrArg (IssuedCall.mk _) (Cancellations.made_cancelAll ..)
    · exact congrArg (· + 1) (Cancellations.made_cancelAll ..)
    · intro source hmem
      rcases Cancellations.mem_cancelAll.mp hmem with hmem | hmem
      · exact .inr (.inr ⟨workClass, Call.affects_replace.mpr rfl, mem_toList.mp hmem⟩)
      · exact .inl hmem
    · intro other source hlookup
      replace hlookup := (lookup_insert ..).symm.trans hlookup
      split at hlookup
      · rename_i heq
        subst heq
        refine .inl ⟨(some.inj hlookup).symm.trans ?_, work, rfl⟩
        exact Cancellations.made_cancelAll ..
      · exact .inr hlookup

end ClientCancellations

namespace Callers

variable {S : Type}

section

variable (lane : Option WorkClass)

def ofLane (calls : List (IssuedCall S)) : List (IssuedCall S) :=
  calls.filter (·.call.affects lane)

def latest (calls : List (IssuedCall S)) : Option (IssuedCall S) :=
  (ofLane lane calls).getLast?

@[simp] theorem ofLane_append (calls more : List (IssuedCall S)) :
    ofLane lane (calls ++ more) = ofLane lane calls ++ ofLane lane more :=
  filter_append ..

theorem ofLane_cons (issued : IssuedCall S)
    (calls : List (IssuedCall S)) : ofLane lane (issued :: calls) =
      if issued.call.affects lane then issued :: ofLane lane calls else ofLane lane calls :=
  filter_cons

end

variable {issued : IssuedCall S}

theorem mem_ofLane {calls : List (IssuedCall S)} :
    issued ∈ ofLane lane calls ↔ issued ∈ calls ∧ issued.call.affects lane :=
  mem_filter

theorem mem_of_latest {calls : List (IssuedCall S)} (h : latest lane calls = some issued) :
    issued ∈ calls ∧ issued.call.affects lane :=
  mem_ofLane.mp (mem_of_getLast? h)

theorem latest_snoc (lane : Option WorkClass) (calls : List (IssuedCall S))
    (issued : IssuedCall S) : latest lane (calls ++ [issued]) =
      if issued.call.affects lane then some issued else latest lane calls := by
  unfold latest ofLane
  rw [filter_append, filter_singleton]
  split
  · rename_i haffects
    rw [haffects, cond_true, List.getLast?_concat]
  · rename_i haffects
    rw [eq_false_of_not_eq_true haffects, cond_false, append_nil]

structure Serves (callers : Callers S) (lane : Option WorkClass) : Prop where
  only : ∀ key entry, key.workClass = lane → callers.queue.pending.lookup key = some entry →
    entry.workClass = lane ∧ ∃ issued, latest lane callers.accepted = some issued ∧
      issued.Asks key entry.kind ∧ entry.cancellation = issued.cancellation
  all : ∀ issued key kind, latest lane callers.accepted = some issued → key.workClass = lane →
    issued.Asks key kind →
    (∃ entry, callers.queue.pending.lookup key = some entry ∧ entry.kind = kind) ∨
      ∃ entry ∈ callers.taken, entry.kind = kind ∧ entry.cancellation = issued.cancellation

structure Sound (callers : Callers S) : Prop where
  valid : ∀ issued ∈ callers.calls, issued.call.valid
  order : ∀ lane, ofLane lane callers.calls = ofLane lane callers.accepted ++
    (ofLane lane callers.channel ++ ofLane lane (callers.unsent.map (·.2)))
  serves : ∀ lane, callers.Serves lane
  distinct : (callers.calls.map (·.cancellation)).Nodup
  made : ∀ issued ∈ callers.calls, issued.cancellation < callers.queue.states.made
  cancelled : ∀ source ∈ callers.queue.states.cancelled, source < callers.queue.states.made
  live : ∀ lane issued, latest lane callers.calls = some issued →
    issued.cancellation ∉ callers.queue.states.cancelled
  opened : ∀ source ∈ callers.client.opening, source < callers.queue.states.made
  classes : ∀ workClass source, callers.client.classes.lookup workClass = some source →
    ∃ work, ⟨.replace workClass work, source⟩ ∈ callers.calls

theorem Sound.of_start : (start : Callers S).Sound where
  valid := forall_mem_nil _
  order := fun _ => rfl
  serves := fun lane => by
    refine ⟨fun key entry _ hentry => ?_, fun issued key kind hlatest => ?_⟩
    · cases (AList.lookup_empty _).symm.trans hentry
    · cases hlatest
  distinct := nodup_nil
  made := forall_mem_nil _
  cancelled := forall_mem_nil _
  live := nofun
  opened := nofun
  classes := fun _ _ h => by cases (AList.lookup_empty _).symm.trans h

namespace Sound

variable {callers next : Callers S} {capacity : Nat} {events : List (CallerEvent S)}

theorem eq_of_cancellation (h : callers.Sound) {other : IssuedCall S}
    (hissued : issued ∈ callers.calls) (hother : other ∈ callers.calls)
    (heq : issued.cancellation = other.cancellation) : issued = other :=
  inj_on_of_nodup_map h.distinct hissued hother heq

theorem mem_calls (h : callers.Sound) (hmem : issued ∈ callers.accepted ∨ issued ∈ callers.channel) :
    issued ∈ callers.calls := by
  obtain ⟨lane, haffects⟩ : ∃ lane, issued.call.affects lane := by
    obtain ⟨call, cancellation⟩ := issued
    cases call with
    | opening source => exact ⟨none, rfl⟩
    | replace workClass work => exact ⟨_, Call.affects_replace.mpr rfl⟩
  suffices hlane : issued ∈ ofLane lane callers.calls from (mem_ofLane.mp hlane).1
  rw [h.order lane]
  rcases hmem with hmem | hmem
  · exact mem_append_left _ (mem_ofLane.mpr ⟨hmem, haffects⟩)
  · exact mem_append_right _ (mem_append_left _ (mem_ofLane.mpr ⟨hmem, haffects⟩))

theorem overtaken (h : callers.Sound) {old found : IssuedCall S} {channel : List (IssuedCall S)}
    (hchannel : callers.channel = issued :: channel) (hold : old ∈ callers.accepted)
    (haffects : old.call.affects lane → issued.call.affects lane)
    (hlatest : latest lane callers.calls = some found) : found ≠ old := by
  rintro rfl
  have hlane := (mem_of_latest hlatest).2
  have hnodup := h.distinct.of_map.filter (·.call.affects lane)
  change (ofLane lane callers.calls).Nodup at hnodup
  have hnext : ofLane lane callers.channel = issued :: ofLane lane channel := by
    rw [hchannel]
    exact filter_cons_of_pos (haffects hlane)
  rw [latest, h.order lane, hnext, cons_append, List.getLast?_append_of_ne_nil _ (by simp)]
    at hlatest
  rw [h.order lane, hnext, cons_append, nodup_append] at hnodup
  exact hnodup.2.2 _ (mem_ofLane.mpr ⟨hold, hlane⟩) _ (mem_of_getLast? hlatest) rfl

theorem serves_of_kept (h : callers.Serves lane)
    (hlatest : latest lane next.accepted = latest lane callers.accepted)
    (hpending : ∀ key, key.workClass = lane → next.queue.pending.lookup key =
      callers.queue.pending.lookup key)
    (htaken : next.taken = callers.taken) : next.Serves lane := by
  refine ⟨fun key entry hkey hentry => ?_, fun issued key kind hissued hkey hasks => ?_⟩
  · rw [hpending key hkey] at hentry
    rw [hlatest]
    exact h.only key entry hkey hentry
  · rw [hpending key hkey, htaken]
    exact h.all issued key kind (hlatest ▸ hissued) hkey hasks

section

variable (h : callers.Sound)

include h

theorem lock {thread : Nat} {call : Call S}
    (hstep : callers.step capacity (.lock thread call) = some next) : next.Sound := by
  rw [step] at hstep
  by_cases hguard : call.valid && callers.unsent.all (·.1 ≠ thread)
  case neg =>
    rw [if_neg hguard] at hstep
    cases hstep
  rw [if_pos hguard] at hstep
  have hvalid := (and_eq_true_iff.mp hguard).1
  have hissues := callers.client.issue_issues callers.queue.states call
  generalize callers.client.issue call callers.queue.states = result at hstep hissues
  obtain ⟨issued, client, states⟩ := result
  obtain ⟨hissued, hmade, hcancelled, hopened, hclasses⟩ := hissues
  dsimp only at hissued hmade hcancelled hopened hclasses hstep
  cases hstep
  have hbelow : ∀ source ∈ states.cancelled, source < callers.queue.states.made := by
    intro source hmem
    rcases hcancelled source hmem with hmem | ⟨-, hmem⟩ | ⟨workClass, -, hlookup⟩
    · exact h.cancelled source hmem
    · exact h.opened source hmem
    · obtain ⟨work, hmem⟩ := h.classes workClass source hlookup
      exact h.made _ hmem
  have hcall : issued.call = call := congrArg IssuedCall.call hissued
  have hsource : issued.cancellation = callers.queue.states.made :=
    congrArg IssuedCall.cancellation hissued
  refine {
    valid := ?_
    order := ?_
    serves := fun lane => serves_of_kept (h.serves lane) rfl (fun _ _ => rfl) rfl
    distinct := ?_
    made := ?_
    cancelled := ?_
    live := ?_
    opened := ?_
    classes := ?_ }
  · intro other hother
    rcases mem_append.mp hother with hother | hother
    · exact h.valid other hother
    · rw [mem_singleton.mp hother, hcall, hvalid]
  · intro lane
    show ofLane lane (callers.calls ++ [issued]) = ofLane lane callers.accepted ++
      (ofLane lane callers.channel ++ ofLane lane ((callers.unsent ++ [(thread, issued)]).map (·.2)))
    rw [map_append, ofLane_append, ofLane_append, h.order lane]
    simp only [append_assoc, map_cons, map_nil]
  · show ((callers.calls ++ [issued]).map (·.cancellation)).Nodup
    rw [map_append, map_singleton, nodup_append]
    refine ⟨h.distinct, nodup_singleton _, ?_⟩
    intro source hmem other hother
    obtain ⟨old, hold, rfl⟩ := mem_map.mp hmem
    have hlt := h.made old hold
    have heq := mem_singleton.mp hother
    omega
  · intro other hother
    show other.cancellation < states.made
    rcases mem_append.mp hother with hother | hother
    · have hlt := h.made other hother
      omega
    · rw [mem_singleton.mp hother]
      omega
  · intro source hmem
    have hlt := hbelow source hmem
    show source < states.made
    omega
  · intro lane found hlatest hmem
    rw [latest_snoc] at hlatest
    split at hlatest
    · cases hlatest
      have hlt := hbelow _ hmem
      omega
    · rename_i hother
      rw [hcall] at hother
      rcases hcancelled _ hmem with hmem | ⟨hnone, -⟩ | ⟨workClass, haffects, hlookup⟩
      · exact h.live lane found hlatest hmem
      · cases call with
        | opening source => exact hother rfl
        | replace workClass work => cases Call.affects_replace.mp hnone
      · -- The source of a class is that of a call that affects this class only.
        obtain ⟨work, hinstalled⟩ := h.classes workClass _ hlookup
        obtain ⟨hfound, hlane⟩ := mem_of_latest hlatest
        have heq := h.eq_of_cancellation hfound hinstalled rfl
        rw [heq] at hlane
        rw [Call.affects_replace.mp hlane] at hother
        exact hother haffects
  · intro source hmem
    show source < states.made
    rcases hopened source hmem with rfl | hmem
    · omega
    · have hlt := h.opened source hmem
      omega
  · intro workClass source hlookup
    rcases hclasses workClass source hlookup with ⟨rfl, work, rfl⟩ | hlookup
    · exact ⟨work, mem_append_right _ (mem_singleton.mpr hissued.symm)⟩
    · obtain ⟨work, hmem⟩ := h.classes workClass source hlookup
      exact ⟨work, mem_append_left _ hmem⟩

/-- A command that is sent before those of earlier calls that do not affect its classes is in the
order of its classes. -/
theorem send {thread : Nat} (horderly : callers.InOrder thread)
    (hstep : callers.step capacity (.send thread) = some next) : next.Sound := by
  rw [step] at hstep
  cases hfind : callers.unsent.find? (·.1 = thread) with
  | none =>
    rw [hfind] at hstep
    cases hstep
  | some found =>
    obtain ⟨other, issued⟩ := found
    rw [hfind] at hstep
    cases hstep
    obtain ⟨hthread, earlier, later, hunsent, hearlier⟩ := List.find?_eq_some_iff_append.mp hfind
    have htake : callers.unsent.takeWhile (·.1 ≠ thread) = earlier := by
      rw [hunsent, takeWhile_append_of_pos, takeWhile_cons_of_neg, append_nil]
      · simpa using hthread
      · intro entry hentry
        simpa using hearlier entry hentry
    have herase : callers.unsent.eraseP (·.1 = thread) = earlier ++ later := by
      rw [hunsent, eraseP_append_right]
      · exact congrArg _ (eraseP_cons_of_pos hthread)
      · intro entry hentry
        simpa using hearlier entry hentry
    refine { h with order := ?_, serves := ?_ }
    · intro lane
      show ofLane lane callers.calls = ofLane lane callers.accepted ++
        (ofLane lane (callers.channel ++ [issued]) ++
          ofLane lane ((callers.unsent.eraseP (·.1 = thread)).map (·.2)))
      rw [h.order lane, herase, hunsent, map_append, map_append, map_cons,
        ofLane_append, ofLane_append, ofLane_append, ofLane_cons, ofLane_cons,
        append_assoc (ofLane lane callers.channel)]
      by_cases haffects : issued.call.affects lane
      · have hnone : ofLane lane (earlier.map (·.2)) = [] := by
          refine filter_eq_nil_iff.mpr fun call hcall => ?_
          obtain ⟨entry, hentry, rfl⟩ := mem_map.mp hcall
          have hconflicts := horderly _ hfind entry (htake ▸ hentry)
          rw [Call.not_affects_of_not_conflicts hconflicts haffects]
          nofun
        rw [hnone, if_pos haffects, if_pos haffects]
        rfl
      · rw [if_neg haffects, if_neg haffects]
        rfl
    · exact fun lane => serves_of_kept (h.serves lane) rfl (fun _ _ => rfl) rfl

theorem accept (hspacious : callers.Spacious capacity)
    (hstep : callers.step capacity .accept = some next) : next.Sound := by
  rw [step] at hstep
  cases hchannel : callers.channel with
  | nil =>
    rw [hchannel] at hstep
    cases hstep
  | cons issued channel =>
    rw [hchannel] at hstep
    cases hstep
    have hmem := h.mem_calls (.inr (hchannel ▸ mem_cons_self))
    have hvalid := h.valid issued hmem
    have haccepts : callers.queue.Accepts issued (callers.queue.accept capacity issued) := by
      have hspacious' := hspacious issued (by rw [hchannel]; rfl)
      obtain ⟨call, cancellation⟩ := issued
      cases call with
      | opening source => exact callers.queue.accept_opening capacity source cancellation
      | replace workClass work =>
        apply WorkQueue.accept_replace
        · exact fun key entry hentry => ((h.serves key.workClass).only key entry rfl hentry).1
        · exact all_eq_true.mp hvalid
        · exact hspacious'.1
        · exact hspacious'.2
    generalize callers.queue.accept capacity issued = queue at haccepts
    have hlatest := fun lane => latest_snoc lane callers.accepted issued
    refine { h with order := ?_, serves := ?_, made := ?_, cancelled := ?_, live := ?_, opened := ?_ }
    · intro lane
      show ofLane lane callers.calls = ofLane lane (callers.accepted ++ [issued]) ++
        (ofLane lane channel ++ ofLane lane (callers.unsent.map (·.2)))
      rw [h.order lane, hchannel, ofLane_append, ofLane_cons, ofLane_cons]
      by_cases haffects : issued.call.affects lane
      · rw [if_pos haffects, if_pos haffects, append_assoc]
        rfl
      · rw [if_neg haffects, if_neg haffects, append_assoc]
        rfl
    · intro lane
      by_cases haffects : issued.call.affects lane
      · refine ⟨fun key entry hkey hentry => ?_, fun other key kind hother hkey hasks => .inl ?_⟩
        · obtain ⟨hasks, hsource, hclass⟩ := haccepts.only key entry (hkey ▸ haffects) hentry
          exact ⟨hclass.trans hkey, issued, (hlatest lane).trans (if_pos haffects), hasks, hsource⟩
        · cases hother.symm.trans ((hlatest lane).trans (if_pos haffects))
          exact haccepts.all key kind hasks
      · refine serves_of_kept (h.serves lane) ((hlatest lane).trans (if_neg haffects)) ?_ rfl
        exact fun key hkey => haccepts.kept key (hkey ▸ haffects)
    · intro other hother
      exact (h.made other hother).trans_eq haccepts.made.symm
    · intro source hsource
      show source < queue.states.made
      rw [haccepts.made]
      rcases haccepts.cancelled source hsource with hsource | ⟨key, entry, -, hentry, rfl⟩
      · exact h.cancelled source hsource
      · obtain ⟨-, old, hold, -, heq⟩ := (h.serves key.workClass).only key entry rfl hentry
        rw [heq]
        exact h.made old (h.mem_calls (.inl (mem_of_latest hold).1))
    · intro lane found hfound hsource
      rcases haccepts.cancelled _ hsource with hsource | ⟨key, entry, haffects, hentry, hsame⟩
      · exact h.live lane found hfound hsource
      · -- What is removed belongs to a call that is no longer the latest of any class.
        obtain ⟨-, old, hold, hasks, heq⟩ := (h.serves key.workClass).only key entry rfl hentry
        have haccepted := (mem_of_latest hold).1
        have hcalls := h.mem_calls (.inl haccepted)
        have hovertaken := h.overtaken hchannel haccepted
          (hasks.affects_of_affects (h.valid old hcalls) haffects) hfound
        exact hovertaken (h.eq_of_cancellation (mem_of_latest hfound).1 hcalls
          (hsame.symm.trans heq))
    · intro source hsource
      exact (h.opened source hsource).trans_eq haccepts.made.symm

theorem take (hstep : callers.step capacity .take = some next) : next.Sound := by
  rw [step] at hstep
  cases hstep
  cases hkey : highest (fun _ => true) PendingWork.rank callers.queue.pending with
  | none =>
    refine { h with serves := fun lane => serves_of_kept (h.serves lane) rfl (fun _ _ => rfl) ?_ }
    exact append_nil _
  | some highest =>
    obtain ⟨popped, hpopped, -⟩ := highest_eq_some hkey
    refine { h with serves := fun lane => ⟨?_, ?_⟩ }
    · intro key entry hlane hentry
      replace hentry := (lookup_erase ..).symm.trans hentry
      split at hentry
      · cases hentry
      · exact (h.serves lane).only key entry hlane hentry
    · intro issued key kind hissued hlane hasks
      have hlookup : ∀ key, (callers.queue.pending.erase highest).lookup key =
          if key = highest then none else callers.queue.pending.lookup key :=
        fun key => lookup_erase ..
      show (∃ entry, (callers.queue.pending.erase highest).lookup key = some entry ∧
          entry.kind = kind) ∨ ∃ entry ∈ callers.taken ++
            (callers.queue.pending.lookup highest).toList, _
      rw [hlookup, hpopped]
      rcases (h.serves lane).all issued key kind hissued hlane hasks with
        ⟨entry, hentry, hkind⟩ | ⟨entry, hentry, hkind⟩
      · by_cases heq : key = highest
        · subst heq
          obtain rfl := some.inj (hentry.symm.trans hpopped)
          obtain ⟨-, latest, hlatest, -, hsource⟩ := (h.serves lane).only key entry hlane hentry
          cases hlatest.symm.trans hissued
          exact .inr ⟨entry, mem_append_right _ mem_cons_self, hkind, hsource⟩
        · rw [if_neg heq]
          exact .inl ⟨entry, hentry, hkind⟩
      · exact .inr ⟨entry, mem_append_left _ hentry, hkind⟩

end

theorem run (along : Transition.Along (step capacity) (Orderly capacity) callers events)
    (h : callers.Sound) (hrun : Transition.run (step capacity) callers events = some next) :
    next.Sound := by
  refine Transition.run_preserves (fun callers event next h horderly hstep => ?_) h along hrun
  cases event with
  | lock thread call => exact h.lock hstep
  | send thread => exact h.send horderly hstep
  | accept => exact h.accept horderly hstep
  | take => exact h.take hstep

end Sound

/-- Once all commands are sent and accepted, what is pending is what the latest call of its class
asks for, with a source that is not cancelled, and whatever the latest call of a class asks for is
pending or was taken. -/
theorem run_latest {capacity : Nat} {events : List (CallerEvent S)} {callers : Callers S}
    (along : Transition.Along (step capacity) (Orderly capacity) start events)
    (hrun : Transition.run (step capacity) start events = some callers)
    (hunsent : callers.unsent = []) (hchannel : callers.channel = []) :
    (∀ key entry, callers.queue.pending.lookup key = some entry → entry.workClass = key.workClass ∧
      ∃ issued, latest entry.workClass callers.calls = some issued ∧ issued.Asks key entry.kind ∧
        entry.cancellation = issued.cancellation ∧
        ¬callers.queue.states.isCancelled [entry.cancellation]) ∧
    ∀ lane issued, latest lane callers.calls = some issued →
      ¬callers.queue.states.isCancelled [issued.cancellation] ∧
      ∀ key kind, key.workClass = lane → issued.Asks key kind →
        (∃ entry, callers.queue.pending.lookup key = some entry ∧ entry.kind = kind) ∨
          ∃ entry ∈ callers.taken, entry.kind = kind ∧
            entry.cancellation = issued.cancellation := by
  have h := Sound.run along .of_start hrun
  have hlatest : ∀ lane, latest lane callers.accepted = latest lane callers.calls := by
    intro lane
    have horder := h.order lane
    rw [hunsent, hchannel] at horder
    rw [latest, latest, horder]
    exact congrArg _ (append_nil _).symm
  have hlive : ∀ lane issued, latest lane callers.calls = some issued →
      ¬callers.queue.states.isCancelled [issued.cancellation] := by
    intro lane issued hissued
    simpa [Cancellations.isCancelled] using h.live lane issued hissued
  constructor
  · intro key entry hentry
    obtain ⟨hclass, issued, hissued, hasks, hsource⟩ :=
      (h.serves key.workClass).only key entry rfl hentry
    rw [hlatest] at hissued
    refine ⟨hclass, issued, hclass ▸ hissued, hasks, hsource, ?_⟩
    rw [hsource]
    exact hlive _ issued hissued
  · intro lane issued hissued
    refine ⟨hlive lane issued hissued, fun key kind hkey hasks => ?_⟩
    exact (h.serves lane).all issued key kind ((hlatest lane).trans hissued) hkey hasks

end Callers

namespace Callers

def page (number : Nat) : Work :=
  .text ⟨⟨1, number + 1, 128, .visible⟩, number, .visibleLayer⟩

/-- Two threads ask for pages, and the commands are sent in the order of the calls. -/
def ordered : List (CallerEvent Nat) :=
  [.lock 1 (.replace .visibleText [page 0]), .lock 2 (.replace .visibleText [page 1]), .send 1,
    .accept, .send 2, .accept]

theorem run_latest_ordered : ∃ callers, Transition.run (step 4) start ordered = some callers ∧
    ∀ entry, callers.queue.pending.lookup (.text .visibleText 1) = some entry →
      ¬callers.queue.states.isCancelled [entry.cancellation] := by
  obtain ⟨callers, hrun⟩ := isSome_iff_exists.mp
    (show (Transition.run (step 4) start ordered).isSome by decide +kernel)
  have hdone : (Transition.run (step 4) start ordered).all fun callers =>
      callers.unsent.isEmpty && callers.channel.isEmpty := by decide +kernel
  rw [hrun, all_some, and_eq_true, List.isEmpty_iff, List.isEmpty_iff] at hdone
  refine ⟨callers, hrun, fun entry hentry => ?_⟩
  obtain ⟨-, issued, -, -, -, hlive⟩ :=
    (run_latest (by decide +kernel) hrun hdone.1 hdone.2).1 _ entry hentry
  exact hlive

/-- The first of the two calls is sent last. -/
def swapped : List (CallerEvent Nat) :=
  [.lock 1 (.replace .visibleText [page 0]), .lock 2 (.replace .visibleText [page 1]), .send 2,
    .send 1, .accept, .accept]

/-- The work of the earlier call is pending although its source is cancelled. -/
theorem swapped_cancelled : ∃ callers, Transition.run (step 4) start swapped = some callers ∧
    callers.unsent = [] ∧ callers.channel = [] ∧
    ∃ key entry, callers.queue.pending.lookup key = some entry ∧
      entry.workClass = some .visibleText ∧
      callers.queue.states.isCancelled [entry.cancellation] := by
  obtain ⟨callers, hrun⟩ := Option.isSome_iff_exists.mp
    (show (Transition.run (step 4) start swapped).isSome by decide +kernel)
  have hend : (Transition.run (step 4) start swapped).all fun callers =>
      (callers.unsent.isEmpty && callers.channel.isEmpty) &&
        (callers.queue.pending.lookup (.text .visibleText 0)).any fun entry =>
          entry.workClass = some .visibleText &&
            callers.queue.states.isCancelled [entry.cancellation] := by decide +kernel
  rw [hrun, all_some, and_eq_true, and_eq_true, List.isEmpty_iff,
    List.isEmpty_iff, Option.any_eq_true] at hend
  obtain ⟨⟨hunsent, hchannel⟩, entry, hentry, hbad⟩ := hend
  rw [and_eq_true, decide_eq_true_eq] at hbad
  exact ⟨callers, hrun, hunsent, hchannel, _, entry, hentry, hbad⟩

end Callers

end KeyReader.Runtime
