import KeyReader.Component.Worker
import KeyReader.Outstanding

/-! The protocol of the mailbox, over any order of the lock sections of the host and the worker: which
results are drained, and in which order. -/

namespace KeyReader.Component

open Machine Extension Compaction Outstanding List

def Call.key : Call → Option CoalescingKey
  | .event envelope => eventCoalescingKey envelope.event
  | _ => none

/-- After these calls no result of an event accepted before is wanted. -/
def Call.cuts : Call → Bool
  | .activate | .cancel | .suspend | .unload => true
  | .event _ | .resume => false

/-- After these calls no result at all of a call accepted before is wanted. -/
def Call.supersedes : Call → Bool
  | .activate | .unload => true
  | _ => false

/-- The call of a command or a result, with the epochs that it is marked with. -/
structure Item where
  call : Nat
  lifecycle : Nat
  work : Option Nat

def WorkerCommand.item (command : WorkerCommand) : Item :=
  ⟨command.call, command.lifecycle, command.work⟩

def WorkerResult.item (result : WorkerResult) : Item := ⟨result.call, result.lifecycle, result.work⟩

def Worker.items : Worker → List Item
  | .executing command => [command.item]
  | .executed _ outcome => (outcome.map WorkerResult.item).toList
  | .lowered _ outcome => (outcome.map WorkerResult.item).toList
  | .blocked _ result => [result.item]
  | .woken _ result => [result.item]
  | _ => []

/-- Everything between the host and the component, from the next result to the last command. -/
def items (mailbox : MailboxState) (worker : Worker) : List Item :=
  mailbox.results.map WorkerResult.item ++ worker.items ++ mailbox.commands.map WorkerCommand.item

@[simp] theorem Worker.items_notified (worker : Worker) : worker.notified.items = worker.items := by
  cases worker <;> rfl

@[simp] theorem Worker.items_after (command : WorkerCommand) : (Worker.after command).items = [] := by
  unfold Worker.after
  split <;> rfl

def WorkerCommand.Of (calls : List Call) : WorkerCommand → Prop
  | .activate call .. => calls[call]? = some .activate
  | .event call _ _ _ envelope => calls[call]? = some (.event envelope)
  | .suspend call .. => calls[call]? = some .suspend
  | .resume call .. => calls[call]? = some .resume
  | .unload call _ => calls[call]? = some .unload

/-- A result is the one of its call: only those of events belong to an epoch of work. -/
def WorkerResult.Of (calls : List Call) (result : WorkerResult) : Prop :=
  (∃ envelope, calls[result.call]? = some (.event envelope) ∧
    result.update.call = .event envelope ∧ result.work.isSome = true) ∨
  (∀ envelope, calls[result.call]? ≠ some (.event envelope)) ∧ result.work = none ∧
    ∀ envelope, result.update.call ≠ .event envelope

def Worker.Of (calls : List Call) : Worker → Prop
  | .executing command => command.Of calls
  | .executed _ outcome => ∀ result, outcome = some result → result.Of calls
  | .lowered _ outcome => ∀ result, outcome = some result → result.Of calls
  | .blocked _ result => result.Of calls
  | .woken _ result => result.Of calls
  | _ => True

def Worker.Unloads : Worker → Prop
  | .executing command => command.isUnload = true
  | .executed command _ => command.isUnload = true
  | .lowered command _ => command.isUnload = true
  | .blocked command _ => command.isUnload = true
  | .woken command _ => command.isUnload = true
  | .leaving => True
  | .exited => True
  | .ready => False
  | .starved => False

/-- There is such a call after a number. -/
def Later (such : Call → Bool) (calls : List Call) (n : Nat) : Prop :=
  ∃ k call, n < k ∧ calls[k]? = some call ∧ such call = true

def Cancelled : List Call → Nat → Prop := Later Call.cuts

def Superseded : List Call → Nat → Prop := Later Call.supersedes

/-- The epochs of an item tell whether it was cancelled, unless the counters are saturated. -/
structure Dated (mailbox : MailboxState) (item : Item) : Prop where
  lifecycle_le : item.lifecycle ≤ mailbox.lifecycle
  work_le : ∀ work, item.work = some work → work ≤ mailbox.work
  stale : item.lifecycle ≠ mailbox.lifecycle ∨ (∃ work, item.work = some work ∧ work ≠ mailbox.work) ∨
    mailbox.closed = true → Cut Call.cuts mailbox.calls item.call
  superseded : mailbox.lifecycle < u64Max → item.lifecycle = mailbox.lifecycle →
    ¬ Superseded mailbox.calls item.call
  cancelled : mailbox.work < u64Max → item.work = some mailbox.work →
    ¬ Cancelled mailbox.calls item.call

/-- A result that the host has no use for any more. -/
def Outdated (calls : List Call) (result : WorkerResult) : Prop :=
  Superseded calls result.call ∨ result.work.isSome = true ∧ Cancelled calls result.call

/-- No counter is saturated. -/
def MailboxState.Fresh (mailbox : MailboxState) : Prop :=
  mailbox.lifecycle < u64Max ∧ mailbox.work < u64Max

/-- What was drained was wanted at that time. -/
structure Delivered (mailbox : MailboxState) (result : WorkerResult) (next : Nat) : Prop where
  ofCall : result.Of mailbox.calls
  before : next ≤ mailbox.calls.length
  wanted : mailbox.Fresh → ¬ Outdated (mailbox.calls.take next) result

structure Delivery (mailbox : MailboxState) (worker : Worker)
    (drained : List (WorkerResult × Nat)) : Prop where
  accounts : Accounts Call.key Call.cuts mailbox.calls ((items mailbox worker).map Item.call)
    (drained.map (·.1.call))
  dated : ∀ item ∈ items mailbox worker, Dated mailbox item
  commands : ∀ command ∈ mailbox.commands, command.Of mailbox.calls
  held : worker.Of mailbox.calls
  results : ∀ result ∈ mailbox.results, result.Of mailbox.calls
  unload : worker.Unloads ∨ (∃ command ∈ mailbox.commands, command.isUnload = true) →
    mailbox.closed = true
  delivered : ∀ entry ∈ drained, Delivered mailbox entry.1 entry.2
  bounded : mailbox.lifecycle ≤ u64Max ∧ mailbox.work ≤ u64Max

variable {result : WorkerResult} {n : Nat} {item : Item}

section Grows

variable {calls : List Call}

theorem WorkerCommand.Of.append {command : WorkerCommand} (h : command.Of calls) (more : List Call) :
    command.Of (calls ++ more) := by
  cases command <;> exact getElem?_append_of_some h more

theorem WorkerResult.Of.append (h : result.Of calls) (more : List Call)
    (hbelow : result.call < calls.length) : result.Of (calls ++ more) := by
  rcases h with ⟨envelope, hcall, hrest⟩ | ⟨hcall, hrest⟩
  · exact .inl ⟨envelope, getElem?_append_of_some hcall more, hrest⟩
  · refine .inr ⟨fun envelope => ?_, hrest⟩
    rw [List.getElem?_append_left hbelow]
    exact hcall envelope

variable {call : Call}

theorem later_append {such : Call → Bool} (h : Later such (calls ++ [call]) n) :
    Later such calls n ∨ such call = true := by
  obtain ⟨k, other, hnk, hother, hsuch⟩ := h
  rcases Nat.lt_or_ge k calls.length with hk | hk
  · rw [List.getElem?_append_left hk] at hother
    exact .inl ⟨k, other, hnk, hother, hsuch⟩
  · rw [List.getElem?_append_right hk, List.getElem?_singleton] at hother
    split at hother
    · cases hother
      exact .inr hsuch
    · cases hother

theorem cut_last (calls : List Call) (hcuts : call.cuts = true)
    (hle : n ≤ calls.length) : Cut Call.cuts (calls ++ [call]) n :=
  ⟨calls.length, call, hle, by simp, hcuts⟩

/-- How an accepted call changes the epochs. -/
structure Advances (call : Call) (mailbox next : MailboxState) : Prop where
  calls : next.calls = mailbox.calls ++ [call]
  lifecycle : next.lifecycle = mailbox.lifecycle ∧ call.supersedes = false ∨
    next.lifecycle = saturatingAdd mailbox.lifecycle 1 ∧ call.cuts = true
  work : next.work = mailbox.work ∧ call.cuts = false ∨
    next.work = saturatingAdd mailbox.work 1 ∧ call.cuts = true
  closed : next.closed = mailbox.closed ∨ next.closed = true ∧ call.cuts = true

theorem Advances.fresh {mailbox next : MailboxState} (h : Advances call mailbox next)
    (hfresh : next.Fresh) : mailbox.Fresh := by
  obtain ⟨-, hlifecycle, hwork, -⟩ := h
  unfold MailboxState.Fresh saturatingAdd at *
  omega

theorem Dated.advance {mailbox next : MailboxState} (h : Dated mailbox item)
    (hadvances : Advances call mailbox next) (hbelow : item.call < mailbox.calls.length)
    (hbounds : mailbox.lifecycle ≤ u64Max ∧ mailbox.work ≤ u64Max) : Dated next item := by
  obtain ⟨hcalls, hlifecycle, hwork, hclosed⟩ := hadvances
  have hcut : call.cuts = true → Cut Call.cuts next.calls item.call := fun hcuts => by
    rw [hcalls]
    exact cut_last _ hcuts hbelow.le
  have hold : Cut Call.cuts mailbox.calls item.call → Cut Call.cuts next.calls item.call :=
    fun hcut => by
      rw [hcalls]
      exact hcut.append _
  unfold saturatingAdd at hlifecycle hwork
  constructor
  · have := h.lifecycle_le
    omega
  · intro work hitem
    have := h.work_le work hitem
    omega
  · intro hstale
    by_cases hcuts : call.cuts = true
    · exact hcut hcuts
    · refine hold (h.stale ?_)
      rw [(hlifecycle.resolve_right fun h => hcuts h.2).1, (hwork.resolve_right fun h => hcuts h.2).1,
        hclosed.resolve_right fun h => hcuts h.2] at hstale
      exact hstale
  · intro hless hsame hsuperseded
    rw [hcalls] at hsuperseded
    rcases later_append hsuperseded with hsuperseded | hsupersedes
    · have hle := h.lifecycle_le
      rcases hlifecycle with ⟨heq, -⟩ | ⟨heq, -⟩
      · exact h.superseded (by omega) (by omega) hsuperseded
      · omega
    · rcases hlifecycle with ⟨-, hnot⟩ | ⟨heq, -⟩
      · rw [hnot] at hsupersedes
        cases hsupersedes
      · have hle := h.lifecycle_le
        omega
  · intro hless hsame hcancelled
    rw [hcalls] at hcancelled
    have hle := h.work_le _ hsame
    rcases hwork with ⟨heq, hnot⟩ | ⟨heq, -⟩
    · rcases later_append hcancelled with hcancelled | hcuts
      · rw [heq] at hsame hless
        exact h.cancelled hless hsame hcancelled
      · rw [hnot] at hcuts
        cases hcuts
    · omega

end Grows

section Steps

variable {mailbox next : MailboxState} {worker worker' : Worker} {drained : List (WorkerResult × Nat)}

theorem Delivery.item_below (h : Delivery mailbox worker drained)
    (hitem : item ∈ items mailbox worker) : item.call < mailbox.calls.length :=
  h.accounts.below _ (mem_append_right _ (mem_map_of_mem hitem))

theorem Delivery.result_below (h : Delivery mailbox worker drained) {entry : WorkerResult × Nat}
    (hentry : entry ∈ drained) : entry.1.call < mailbox.calls.length :=
  h.accounts.below _ (mem_append_left _ (mem_map.mpr ⟨entry, hentry, rfl⟩))

theorem mem_items_result (h : result ∈ mailbox.results) : result.item ∈ items mailbox worker :=
  mem_append_left _ (mem_append_left _ (mem_map_of_mem h))

theorem mem_items_worker (h : item ∈ worker.items) : item ∈ items mailbox worker :=
  mem_append_left _ (mem_append_right _ h)

section moves

variable (h : Delivery mailbox worker drained)
  (hsame : next.lifecycle = mailbox.lifecycle ∧ next.work = mailbox.work ∧
    next.closed = mailbox.closed ∧ next.calls = mailbox.calls)
  (hcommands : ∀ command ∈ next.commands, command ∈ mailbox.commands)
  (hheld : worker'.Of mailbox.calls) (hresults : ∀ result ∈ next.results, result.Of mailbox.calls)
  (hunload : worker'.Unloads →
    worker.Unloads ∨ ∃ command ∈ mailbox.commands, command.isUnload = true)

include h hsame hcommands hheld hresults hunload

/-- The same calls are outstanding in other places. -/
theorem Delivery.relocate
    (haccounts : Accounts Call.key Call.cuts mailbox.calls ((items next worker').map Item.call)
      (drained.map (·.1.call)))
    (hitems : ∀ item ∈ items next worker', item ∈ items mailbox worker) :
    Delivery next worker' drained := by
  obtain ⟨lifecycle, work, commands, results, _, _, _, _, closed, _, calls⟩ := next
  obtain ⟨rfl, rfl, rfl, rfl⟩ := hsame
  refine ⟨haccounts, fun item hitem => { h.dated item (hitems item hitem) with },
    fun command hcommand => h.commands command (hcommands command hcommand), hheld, hresults, ?_,
    fun entry hentry => { h.delivered entry hentry with }, h.bounded⟩
  rintro (hworker | ⟨command, hcommand, hunloads⟩)
  · exact h.unload (hunload hworker)
  · exact h.unload (.inr ⟨command, hcommands command hcommand, hunloads⟩)

/-- A call that a later one replaces is not outstanding any more. -/
theorem Delivery.replace {before after rest : List Item} {dropped replacing : Item}
    {key : CoalescingKey}
    (hold : items mailbox worker = before ++ dropped :: after ++ replacing :: rest)
    (hnew : items next worker' = before ++ after ++ replacing :: rest)
    (hdropped : ∃ call, mailbox.calls[dropped.call]? = some call ∧ call.key = some key)
    (hreplacing : ∃ call, mailbox.calls[replacing.call]? = some call ∧ call.key = some key)
    (hafter : ∀ item ∈ after, Keyed Call.key mailbox.calls item.call) :
    Delivery next worker' drained := by
  refine h.relocate hsame hcommands hheld hresults hunload ?_ fun item hitem => ?_
  · obtain ⟨call, hcall, hcallKey⟩ := hdropped
    obtain ⟨later, hlater, hlaterKey⟩ := hreplacing
    have haccounts := h.accounts
    rw [hold] at haccounts
    rw [hnew]
    simp only [map_append, map_cons] at haccounts ⊢
    refine haccounts.replace hcall hlater (by rw [hcallKey]; rfl) (hlaterKey.trans hcallKey.symm)
      fun k hk => ?_
    obtain ⟨item, hitem, rfl⟩ := mem_map.mp hk
    exact hafter item hitem
  · rw [hnew] at hitem
    rw [hold]
    simp only [mem_append, mem_cons] at hitem ⊢
    tauto

theorem Delivery.move (hitems : (items next worker').Sublist (items mailbox worker))
    (hcut : ∀ item ∈ items mailbox worker, item ∉ items next worker' →
      Cut Call.cuts mailbox.calls item.call) :
    Delivery next worker' drained := by
  refine h.relocate hsame hcommands hheld hresults hunload ?_ fun item hitem => hitems.subset hitem
  refine h.accounts.forget (hitems.map _) fun n hn hnot => ?_
  obtain ⟨item, hitem, rfl⟩ := mem_map.mp hn
  exact hcut item hitem fun hmem => hnot (mem_map_of_mem hmem)

end moves

variable {calls : List Call}

theorem Worker.of_notified (h : worker.Of calls) : worker.notified.Of calls := by
  cases worker <;> exact h

theorem Worker.unloads_notified (h : worker.notified.Unloads) : worker.Unloads := by
  cases worker <;> exact h

theorem Delivery.notified (h : Delivery mailbox worker drained) :
    Delivery mailbox worker.notified drained := by
  have hitems : items mailbox worker.notified = items mailbox worker := by simp [items]
  refine h.move ⟨rfl, rfl, rfl, rfl⟩ (fun _ hcommand => hcommand) (Worker.of_notified h.held) h.results
    (fun hunloads => .inl (Worker.unloads_notified hunloads)) (hitems ▸ List.Sublist.refl _)
    fun item hitem hnot => ?_
  exact absurd (hitems ▸ hitem) hnot

structure Queued (call : Call) (mailbox next : MailboxState) (command : WorkerCommand) : Prop where
  number : command.call = mailbox.next
  ofCall : command.Of next.calls
  lifecycle : command.lifecycle = next.lifecycle
  work : command.work = none ∨ command.work = some next.work
  unload : command.isUnload = true → next.closed = true
  closed : next.closed = true → call.cuts = true

theorem later_last {such : Call → Bool} {call : Call} :
    ¬ Later such (calls ++ [call]) calls.length := by
  rintro ⟨k, other, hlt, hother, -⟩
  have hk := (List.getElem?_eq_some_iff.mp hother).1
  rw [length_append, length_singleton] at hk
  omega

variable {command : WorkerCommand}

theorem Queued.dated {call : Call} (h : Queued call mailbox next command)
    (hadvances : Advances call mailbox next) : Dated next command.item := by
  constructor
  · exact h.lifecycle.le
  · intro work hwork
    rcases h.work with hnone | hsome
    · cases hnone.symm.trans hwork
    · exact (Option.some.inj (hsome.symm.trans hwork)).ge
  · intro hstale
    have hclosed : next.closed = true := by
      rcases hstale with hlifecycle | ⟨work, hwork, hne⟩ | hclosed
      · exact absurd h.lifecycle hlifecycle
      · rcases h.work with hnone | hsome
        · cases hnone.symm.trans hwork
        · exact absurd (Option.some.inj (hsome.symm.trans hwork)).symm hne
      · exact hclosed
    rw [hadvances.calls]
    exact cut_last _ (h.closed hclosed) h.number.le
  · intro _ _
    rw [hadvances.calls]
    show ¬ Later _ _ command.call
    rw [h.number]
    exact later_last
  · intro _ _
    rw [hadvances.calls]
    show ¬ Later _ _ command.call
    rw [h.number]
    exact later_last

theorem Delivered.advance {call : Call} (h : Delivered mailbox result n)
    (hadvances : Advances call mailbox next) (hbelow : result.call < mailbox.calls.length) :
    Delivered next result n := by
  obtain ⟨hof, hbefore, hwanted⟩ := h
  constructor
  · rw [hadvances.calls]
    exact hof.append _ hbelow
  · rw [hadvances.calls, length_append]
    omega
  · intro hfresh
    rw [hadvances.calls, take_append_of_le_length hbefore]
    exact hwanted (hadvances.fresh hfresh)

/-- A call is accepted.  Unless it cancels, nothing goes, and its command is queued. -/
theorem Delivery.accept {call : Call} {kept pushed : List WorkerCommand}
    (h : Delivery mailbox worker drained) (hadvances : Advances call mailbox next)
    (hresults : next.results.Sublist mailbox.results) (hkept : kept.Sublist mailbox.commands)
    (hcommands : next.commands = kept ++ pushed)
    (hpushed : ∀ command ∈ pushed, Queued call mailbox next command)
    (hone : (pushed.map WorkerCommand.call).Sublist [mailbox.next])
    (hall : call.cuts = true ∨ next.results = mailbox.results ∧ kept = mailbox.commands ∧
      pushed ≠ []) : Delivery next worker.notified drained := by
  have hold : items next worker =
      next.results.map WorkerResult.item ++ worker.items ++ kept.map WorkerCommand.item ++
        pushed.map WorkerCommand.item := by
    simp [items, hcommands]
  have hsub : (next.results.map WorkerResult.item ++ worker.items ++
      kept.map WorkerCommand.item).Sublist (items mailbox worker) :=
    ((hresults.map _).append (List.Sublist.refl _)).append (hkept.map _)
  refine Delivery.notified ⟨?_, ?_, ?_, ?_, ?_, ?_, ?_, ?_⟩
  · rw [hadvances.calls, hold]
    have hcalls : (pushed.map WorkerCommand.item).map Item.call = pushed.map WorkerCommand.call := by
      rw [map_map]
      rfl
    refine (h.accounts.accept call).forget ?_ fun n hn hnot => ?_
    · rw [map_append, hcalls]
      exact (hsub.map _).append hone
    · rcases hall with hcuts | ⟨hresults, hkept, hpushed⟩
      · refine cut_last _ hcuts ?_
        rcases mem_append.mp hn with hn | hn
        · exact (h.accounts.below n (mem_append_right _ hn)).le
        · exact (mem_singleton.mp hn).le
      · refine absurd ?_ hnot
        rw [map_append, hcalls, hresults, hkept]
        have hlast : pushed.map WorkerCommand.call = [mailbox.next] := by
          rcases sublist_singleton.mp hone with hnil | hone
          · exact absurd (map_eq_nil_iff.mp hnil) hpushed
          · exact hone
        rw [hlast]
        exact hn
  · intro item hitem
    rw [hold] at hitem
    rcases mem_append.mp hitem with hitem | hitem
    · exact (h.dated item (hsub.subset hitem)).advance hadvances (h.item_below (hsub.subset hitem))
        h.bounded
    · obtain ⟨command, hcommand, rfl⟩ := mem_map.mp hitem
      exact (hpushed command hcommand).dated hadvances
  · intro command hcommand
    rw [hcommands] at hcommand
    rcases mem_append.mp hcommand with hcommand | hcommand
    · rw [hadvances.calls]
      exact (h.commands command (hkept.subset hcommand)).append _
    · exact (hpushed command hcommand).ofCall
  · rw [hadvances.calls]
    have hbelow : ∀ result : WorkerResult, result.item ∈ worker.items →
        result.call < mailbox.calls.length :=
      fun result hresult => h.item_below (mem_items_worker hresult)
    have hheld := h.held
    cases worker with
    | executing command => exact hheld.append _
    | executed command outcome | lowered command outcome =>
      intro result hresult
      exact (hheld result hresult).append _ (hbelow result (by simp [Worker.items, hresult]))
    | blocked command result | woken command result =>
      exact hheld.append _ (hbelow result (mem_singleton_self _))
    | ready | starved | leaving | exited => trivial
  · intro result hresult
    rw [hadvances.calls]
    have hmem := hresults.subset hresult
    exact (h.results result hmem).append _ (h.item_below (mem_items_result hmem))
  · have hclosed : mailbox.closed = true → next.closed = true := fun hclosed => by
      rcases hadvances.closed with hsame | ⟨hnext, -⟩
      · exact hsame.trans hclosed
      · exact hnext
    rintro (hunloads | ⟨command, hcommand, hunloads⟩)
    · exact hclosed (h.unload (.inl hunloads))
    · rw [hcommands] at hcommand
      rcases mem_append.mp hcommand with hcommand | hcommand
      · exact hclosed (h.unload (.inr ⟨command, hkept.subset hcommand, hunloads⟩))
      · exact (hpushed command hcommand).unload hunloads
  · intro entry hentry
    exact (h.delivered entry hentry).advance hadvances (h.result_below hentry)
  · obtain ⟨hlifecycle, hwork⟩ := h.bounded
    have hnext := hadvances.lifecycle
    have hnextWork := hadvances.work
    unfold saturatingAdd at hnext hnextWork
    omega

theorem WorkerResult.Of.keyed {key : CoalescingKey} (h : result.Of calls)
    (hkey : result.coalescingKey = some key) :
    ∃ call, calls[result.call]? = some call ∧ call.key = some key := by
  unfold WorkerResult.coalescingKey at hkey
  split at hkey
  · cases hkey
  split at hkey
  · rcases h with ⟨envelope, hcall, hevent, -⟩ | ⟨-, -, hother⟩
    · rw [hevent] at hkey
      exact ⟨_, hcall, hkey⟩
    · split at hkey
      · rename_i envelope hevent
        exact absurd hevent (hother envelope)
      · cases hkey
  · cases hkey

theorem WorkerCommand.Of.keyed {key : CoalescingKey} (h : command.Of calls)
    (hkey : command.coalescingKey = some key) :
    ∃ call, calls[command.call]? = some call ∧ call.key = some key := by
  cases command with
  | event call lifecycle work hostGeneration envelope => exact ⟨_, h, hkey⟩
  | activate | suspend | resume | unload => cases hkey

/-- A result replaces an earlier one of its key. -/
theorem Delivery.replaceResult {dropped : WorkerResult} {before after : List WorkerResult}
    {key : CoalescingKey} (h : Delivery mailbox (.lowered command (some result)) drained)
    (hresults : mailbox.results = before ++ dropped :: after)
    (hkey : result.coalescingKey = some key) (hdropped : dropped.coalescingKey = some key)
    (hafter : ∀ other ∈ after, other.coalescingKey.isSome = true) :
    Delivery { mailbox with results := before ++ after ++ [result] } (.after command) drained := by
  have hheld : result.Of mailbox.calls := h.held result rfl
  have hof : ∀ other ∈ before ++ dropped :: after, other.Of mailbox.calls := fun other hother =>
    h.results other (hresults ▸ hother)
  have hitems : items { mailbox with results := before ++ after ++ [result] } (.after command) =
      before.map WorkerResult.item ++ after.map WorkerResult.item ++
        result.item :: mailbox.commands.map WorkerCommand.item := by
    simp [items]
  have hold : items mailbox (.lowered command (some result)) =
      before.map WorkerResult.item ++ dropped.item :: after.map WorkerResult.item ++
        result.item :: mailbox.commands.map WorkerCommand.item := by
    simp [items, hresults, Worker.items]
  refine h.replace ⟨rfl, rfl, rfl, rfl⟩ (fun _ hcommand => hcommand) ?_ ?_ ?_ hold hitems
    ((hof dropped (by simp)).keyed hdropped) (hheld.keyed hkey) fun item hitem => ?_
  · unfold Worker.after
    split <;> trivial
  · intro other hother
    rcases mem_append.mp hother with hother | hother
    · refine hof other ?_
      simp only [mem_append, mem_cons] at hother ⊢
      tauto
    · rw [mem_singleton.mp hother]
      exact hheld
  · intro hunloads
    refine .inl ?_
    unfold Worker.after at hunloads
    split at hunloads
    · assumption
    · exact hunloads.elim
  · obtain ⟨other, hother, rfl⟩ := mem_map.mp hitem
    obtain ⟨otherKey, hotherKey⟩ := Option.isSome_iff_exists.mp (hafter other hother)
    obtain ⟨call, hcall, hcallKey⟩ := (hof other (by simp [hother])).keyed hotherKey
    exact ⟨call, hcall, by rw [hcallKey]; rfl⟩

/-- A command replaces an earlier one of its key. -/
theorem Delivery.replaceCommand {command dropped : WorkerCommand} {before after : List WorkerCommand}
    {key : CoalescingKey} (h : Delivery mailbox worker drained)
    (hcommands : mailbox.commands = before ++ dropped :: after ++ [command])
    (hkey : command.coalescingKey = some key) (hdropped : dropped.coalescingKey = some key)
    (hafter : ∀ other ∈ after, other.coalescingKey.isSome = true) :
    Delivery { mailbox with commands := before ++ after ++ [command] } worker drained := by
  have hof : ∀ other ∈ before ++ dropped :: after ++ [command], other.Of mailbox.calls :=
    fun other hother => h.commands other (hcommands ▸ hother)
  have hitems : items { mailbox with commands := before ++ after ++ [command] } worker =
      (mailbox.results.map WorkerResult.item ++ worker.items ++ before.map WorkerCommand.item) ++
        after.map WorkerCommand.item ++ command.item :: [] := by
    simp [items]
  have hold : items mailbox worker =
      (mailbox.results.map WorkerResult.item ++ worker.items ++ before.map WorkerCommand.item) ++
        dropped.item :: after.map WorkerCommand.item ++ command.item :: [] := by
    simp [items, hcommands]
  refine h.replace ⟨rfl, rfl, rfl, rfl⟩ ?_ h.held h.results .inl hold hitems
    ((hof dropped (by simp)).keyed hdropped) ((hof command (by simp)).keyed hkey) fun item hitem => ?_
  · intro other hother
    rw [hcommands]
    simp only [mem_append, mem_cons] at hother ⊢
    tauto
  · obtain ⟨other, hother, rfl⟩ := mem_map.mp hitem
    obtain ⟨otherKey, hotherKey⟩ := Option.isSome_iff_exists.mp (hafter other hother)
    obtain ⟨call, hcall, hcallKey⟩ := (hof other (by simp [hother])).keyed hotherKey
    exact ⟨call, hcall, by rw [hcallKey]; rfl⟩

theorem Delivery.activate (h : Delivery mailbox worker drained) (context : ActivationContext) :
    Delivery (mailbox.beginLifecycle context) worker.notified drained := by
  refine @Delivery.accept _ _ _ _ .activate [] [_] h
    ⟨rfl, .inr ⟨rfl, rfl⟩, .inr ⟨rfl, rfl⟩, .inl rfl⟩ (nil_sublist _) (nil_sublist _) rfl
    (fun command hcommand => ?_) (List.Sublist.refl _) (.inl rfl)
  rw [mem_singleton.mp hcommand]
  refine ⟨rfl, ?_, rfl, .inl rfl, fun hunload => (by cases hunload), fun _ => rfl⟩
  exact List.getElem?_concat_length

theorem Delivery.close (h : Delivery mailbox worker drained) :
    Delivery mailbox.close worker.notified drained := by
  refine @Delivery.accept _ _ _ _ .unload [] [_] h
    ⟨rfl, .inr ⟨rfl, rfl⟩, .inr ⟨rfl, rfl⟩, .inr ⟨rfl, rfl⟩⟩ (nil_sublist _)
    (nil_sublist _) rfl (fun command hcommand => ?_) (List.Sublist.refl _) (.inl rfl)
  rw [mem_singleton.mp hcommand]
  exact ⟨rfl, List.getElem?_concat_length, rfl, .inl rfl, fun _ => rfl, fun _ => rfl⟩

theorem Delivery.cancel (h : Delivery mailbox worker drained) (enqueueSuspend : Bool) :
    Delivery (mailbox.cancelEventGeneration enqueueSuspend) worker.notified drained := by
  cases enqueueSuspend with
  | true =>
    refine @Delivery.accept _ _ _ _ .suspend _ [_] h
      ⟨rfl, .inl ⟨rfl, rfl⟩, .inr ⟨rfl, rfl⟩, .inl rfl⟩ filter_sublist filter_sublist rfl
      (fun command hcommand => ?_) (List.Sublist.refl _) (.inl rfl)
    rw [mem_singleton.mp hcommand]
    exact ⟨rfl, List.getElem?_concat_length, rfl, .inr rfl, fun hunload => (by cases hunload),
      fun _ => rfl⟩
  | false =>
    exact @Delivery.accept _ _ _ _ .cancel _ [] h
      ⟨rfl, .inl ⟨rfl, rfl⟩, .inr ⟨rfl, rfl⟩, .inl rfl⟩ filter_sublist filter_sublist
      (append_nil _).symm (forall_mem_nil _)
      (nil_sublist _) (.inl rfl)

theorem Delivery.resume (h : Delivery mailbox worker drained) (context : ActivationContext)
    (hopen : mailbox.closed = false) :
    Delivery (mailbox.enqueueResume context) worker.notified drained := by
  refine @Delivery.accept _ _ _ _ .resume _ [_] h
    ⟨rfl, .inl ⟨rfl, rfl⟩, .inl ⟨rfl, rfl⟩, .inl rfl⟩ (List.Sublist.refl _) (List.Sublist.refl _) rfl
    (fun command hcommand => ?_) (List.Sublist.refl _) (.inr ⟨rfl, rfl, cons_ne_nil _ _⟩)
  rw [mem_singleton.mp hcommand]
  refine ⟨rfl, List.getElem?_concat_length, rfl, .inl rfl, fun hunload => (by cases hunload),
    fun hclosed => ?_⟩
  cases hopen.symm.trans hclosed

theorem Delivery.push (h : Delivery mailbox worker drained) (hostGeneration : GenerationId)
    (envelope : EventEnvelope) (hopen : mailbox.closed = false) :
    Delivery ((mailbox.push (.event mailbox.next mailbox.lifecycle mailbox.work hostGeneration
      envelope)).accept (.event envelope)) worker.notified drained := by
  refine @Delivery.accept _ _ _ _ (.event envelope) _ [_] h
    ⟨rfl, .inl ⟨rfl, rfl⟩, .inl ⟨rfl, rfl⟩, .inl rfl⟩ (List.Sublist.refl _) (List.Sublist.refl _) rfl
    (fun command hcommand => ?_) (List.Sublist.refl _) (.inr ⟨rfl, rfl, cons_ne_nil _ _⟩)
  rw [mem_singleton.mp hcommand]
  refine ⟨rfl, List.getElem?_concat_length, rfl, .inr rfl, fun hunload => (by cases hunload),
    fun hclosed => ?_⟩
  cases hopen.symm.trans hclosed

theorem Delivery.event {hostGeneration : GenerationId} {envelope : EventEnvelope}
    (h : Delivery mailbox worker drained)
    (hnext : mailbox.enqueueEvent hostGeneration envelope = .ok next) :
    Delivery next worker.notified drained := by
  unfold MailboxState.enqueueEvent at hnext
  split at hnext
  · cases hnext
  · rename_i hopen
    have hpush := h.push hostGeneration envelope (Bool.eq_false_iff.mpr hopen)
    split at hnext
    · cases hnext
    · dsimp only at hnext
      split at hnext
      · rename_i index hindex
        cases hnext
        obtain ⟨key, hkey, hmatch⟩ := Option.bind_eq_some_iff.mp hindex
        obtain ⟨before, dropped, after, hcommands, rfl, -, hdropped, hafter⟩ :=
          trailingMatch_eq_some hmatch
        have hreplaced := @Delivery.replaceCommand _ _ _
          (.event mailbox.next mailbox.lifecycle mailbox.work hostGeneration envelope) dropped before
          after key hpush (by simp [MailboxState.push, MailboxState.accept, hcommands]) hkey
          (of_decide_eq_true hdropped) fun other hother => by
            have hjoins := (hafter other hother).1
            simp only [Bool.and_eq_true] at hjoins
            exact hjoins.2
        have herase : mailbox.commands.eraseIdx before.length = before ++ after := by
          rw [hcommands, eraseIdx_append_of_length_le le_rfl, Nat.sub_self]
          rfl
        rw [herase]
        exact hreplaced
      · split at hnext
        · cases hnext
        · cases hnext
          exact hpush

theorem Delivery.coalesce (h : Delivery mailbox (.lowered command (some result)) drained)
    (hnext : mailbox.coalesce result = some next) : Delivery next (.after command) drained := by
  obtain ⟨index, hreplaced, rfl⟩ := Option.map_eq_some_iff.mp hnext
  obtain ⟨key, hkey, hmatch⟩ := Option.bind_eq_some_iff.mp hreplaced
  obtain ⟨before, dropped, after, hresults, rfl, -, hdropped, hafter⟩ := trailingMatch_eq_some hmatch
  have herase : mailbox.results.eraseIdx before.length = before ++ after := by
    rw [hresults, eraseIdx_append_of_length_le le_rfl, Nat.sub_self]
    rfl
  rw [herase]
  refine h.replaceResult hresults hkey (of_decide_eq_true hdropped) fun other hother => ?_
  have hjoins := (hafter other hother).1
  simp only [Bool.and_eq_true] at hjoins
  exact hjoins.2

theorem Delivery.take {commands : List WorkerCommand} (h : Delivery mailbox .ready drained)
    (hcommands : mailbox.commands = command :: commands) :
    Delivery (mailbox.take commands) (.executing command) drained := by
  have hitems : items (mailbox.take commands) (.executing command) = items mailbox .ready := by
    simp [items, hcommands, Worker.items, MailboxState.take]
  refine h.move ⟨rfl, rfl, rfl, rfl⟩ (fun other hother => ?_) ?_ h.results
    (fun hunloads => .inr ⟨command, ?_, hunloads⟩) (hitems ▸ List.Sublist.refl _)
    fun item hitem hnot => absurd (hitems ▸ hitem) hnot
  · rw [hcommands]
    exact mem_cons_of_mem _ hother
  · refine h.commands command ?_
    rw [hcommands]
    exact mem_cons_self
  · rw [hcommands]
    exact mem_cons_self

theorem executeWorkerCommand_item {loaded : Bool} {answer : Answer} (hcommand : command.Of calls)
    (h : (executeWorkerCommand loaded command answer).1 = some result) :
    result.item = command.item ∧ result.Of calls := by
  cases command with
  | activate call lifecycle hostGeneration context =>
    cases h
    refine ⟨rfl, .inr ⟨fun envelope hcall => ?_, rfl, fun envelope hcall => (by cases hcall)⟩⟩
    cases hcommand.symm.trans hcall
  | event call lifecycle work hostGeneration envelope =>
    cases h
    exact ⟨rfl, .inl ⟨envelope, hcommand, rfl, rfl⟩⟩
  | suspend call lifecycle work => cases h
  | resume call lifecycle hostGeneration context =>
    cases h
    refine ⟨rfl, .inr ⟨fun envelope hcall => ?_, rfl, fun envelope hcall => (by cases hcall)⟩⟩
    cases hcommand.symm.trans hcall
  | unload call lifecycle => cases h

theorem executeWorkerCommand_none {loaded : Bool} {answer : Answer} (hcommand : command.Of calls)
    (h : (executeWorkerCommand loaded command answer).1 = none) :
    Cut Call.cuts calls command.call := by
  cases command with
  | activate | event => cases h
  | suspend call lifecycle work => exact ⟨call, .suspend, le_rfl, hcommand, rfl⟩
  | resume => cases h
  | unload call lifecycle => exact ⟨call, .unload, le_rfl, hcommand, rfl⟩

theorem Delivery.execute (loaded : Bool) (answer : Answer)
    (h : Delivery mailbox (.executing command) drained) :
    Delivery mailbox (.executed command (executeWorkerCommand loaded command answer).1) drained := by
  have hheld : command.Of mailbox.calls := h.held
  cases houtcome : (executeWorkerCommand loaded command answer).1 with
  | none =>
    have hcut := executeWorkerCommand_none hheld houtcome
    have hsub : (items mailbox (.executed command none)).Sublist
        (items mailbox (.executing command)) :=
      ((List.Sublist.refl _).append (nil_sublist _)).append (List.Sublist.refl _)
    refine h.move ⟨rfl, rfl, rfl, rfl⟩ (fun _ hother => hother) (fun _ hresult => by cases hresult)
      h.results .inl hsub fun item hitem hnot => ?_
    have hitem' : item = command.item := by
      simp only [items, Worker.items, mem_append, mem_singleton, Option.map_none,
        Option.toList_none, not_mem_nil, or_false] at hitem hnot
      tauto
    rw [hitem']
    exact hcut
  | some result =>
    obtain ⟨hitem, hof⟩ := executeWorkerCommand_item hheld houtcome
    have hitems : items mailbox (.executed command (some result)) =
        items mailbox (.executing command) := by
      simp [items, Worker.items, hitem]
    refine h.move ⟨rfl, rfl, rfl, rfl⟩ (fun _ hother => hother) (fun other hother => ?_) h.results .inl
      (hitems ▸ List.Sublist.refl _) fun item hitem hnot => absurd (hitems ▸ hitem) hnot
    cases hother
    exact hof

theorem Delivery.step (h : Delivery mailbox worker drained)
    (hsame : next.lifecycle = mailbox.lifecycle ∧ next.work = mailbox.work ∧
      next.closed = mailbox.closed ∧ next.calls = mailbox.calls)
    (hitems : items next worker' = items mailbox worker)
    (hcommands : next.commands = mailbox.commands) (hheld : worker'.Of mailbox.calls)
    (hresults : ∀ result ∈ next.results, result.Of mailbox.calls)
    (hunload : worker'.Unloads → worker.Unloads) : Delivery next worker' drained :=
  h.move hsame (fun _ hcommand => hcommands ▸ hcommand) hheld hresults
    (fun hunloads => .inl (hunload hunloads)) (hitems ▸ List.Sublist.refl _)
    fun _ hitem hnot => absurd (hitems ▸ hitem) hnot

theorem Worker.of_after (calls : List Call) (command : WorkerCommand) :
    (Worker.after command).Of calls := by
  unfold Worker.after
  split <;> trivial

theorem Worker.unloads_after (h : (Worker.after command).Unloads) : command.isUnload = true := by
  unfold Worker.after at h
  split at h
  · assumption
  · exact h.elim

theorem offering_cases (h : worker.offering = some (command, result)) :
    worker.items = [result.item] ∧ (∀ calls, worker.Of calls → result.Of calls) ∧
      (command.isUnload = true → worker.Unloads) := by
  unfold Worker.offering at h
  split at h
  · cases h
    exact ⟨rfl, fun _ hheld => hheld _ rfl, fun hunload => hunload⟩
  · cases h
    exact ⟨rfl, fun _ hheld => hheld, fun hunload => hunload⟩
  · cases h

theorem Delivery.wait (h : Delivery mailbox worker drained)
    (hoffering : worker.offering = some (command, result)) :
    Delivery mailbox (.blocked command result) drained := by
  obtain ⟨hitems, hof, hunload⟩ := offering_cases hoffering
  refine h.step ⟨rfl, rfl, rfl, rfl⟩ ?_ rfl (hof _ h.held) h.results hunload
  unfold items
  rw [hitems]
  rfl

theorem Dated.cut_of_not_current (h : Dated mailbox result.item)
    (hnot : mailbox.isCurrent result = false) : Cut Call.cuts mailbox.calls result.call := by
  refine h.stale ?_
  simp only [MailboxState.isCurrent, Bool.and_eq_false_iff, decide_eq_false_iff_not] at hnot
  rcases hnot with hlifecycle | hwork
  · exact .inl hlifecycle
  · refine .inr (.inl ?_)
    cases hsome : result.work with
    | none => simp [hsome] at hwork
    | some work => exact ⟨work, hsome, by simpa [hsome] using hwork⟩

theorem Delivery.retain (h : Delivery mailbox worker drained)
    (hoffering : worker.offering = some (command, result)) :
    Delivery (mailbox.retain result) (.after command) drained := by
  obtain ⟨hitems, hof, hunload⟩ := offering_cases hoffering
  have hmem : result.item ∈ items mailbox worker := mem_items_worker (by simp [hitems])
  unfold MailboxState.retain
  split
  · refine h.step ⟨rfl, rfl, rfl, rfl⟩ ?_ rfl (Worker.of_after _ _) (fun other hother => ?_)
      fun hunloads => hunload (Worker.unloads_after hunloads)
    · simp [items, hitems]
    · rcases mem_append.mp hother with hother | hother
      · exact h.results other hother
      · rw [mem_singleton.mp hother]
        exact hof _ h.held
  · rename_i hstale
    have hcut : Cut Call.cuts mailbox.calls result.item.call := by
      cases hcurrent : mailbox.isCurrent result with
      | false => exact (h.dated _ hmem).cut_of_not_current hcurrent
      | true =>
        refine (h.dated _ hmem).stale (.inr (.inr ?_))
        simpa [hcurrent] using hstale
    have hsub : (items mailbox (.after command)).Sublist (items mailbox worker) := by
      unfold items
      rw [Worker.items_after, hitems]
      exact ((List.Sublist.refl _).append (nil_sublist _)).append (List.Sublist.refl _)
    refine h.move ⟨rfl, rfl, rfl, rfl⟩ (fun _ hcommand => hcommand) (Worker.of_after _ _) h.results
      (fun hunloads => .inl (hunload (Worker.unloads_after hunloads))) hsub fun item hitem hnot => ?_
    have hitem' : item = result.item := by
      simp only [items, hitems, Worker.items_after, mem_append, mem_singleton,
        not_mem_nil, or_false] at hitem hnot
      tauto
    rw [hitem']
    exact hcut

theorem Delivery.leave (h : Delivery mailbox .leaving drained) :
    Delivery mailbox.leave .exited drained := by
  have hclosed := h.unload (.inl trivial)
  have hsub : (items mailbox.leave .exited).Sublist (items mailbox .leaving) :=
    (List.Sublist.refl _).append (nil_sublist _)
  refine h.move ⟨rfl, rfl, rfl, rfl⟩ (forall_mem_nil _) trivial h.results
    (fun _ => .inl trivial) hsub fun item hitem _ => ?_
  exact (h.dated item hitem).stale (.inr (.inr hclosed))

theorem Dated.wanted (h : Dated mailbox result.item) (hcurrent : mailbox.isCurrent result = true)
    (hfresh : mailbox.Fresh) : ¬ Outdated mailbox.calls result := by
  simp only [MailboxState.isCurrent, Bool.and_eq_true, decide_eq_true_eq] at hcurrent
  rintro (hsuperseded | ⟨hsome, hcancelled⟩)
  · exact h.superseded hfresh.1 hcurrent.1 hsuperseded
  · obtain ⟨work, hwork⟩ := Option.isSome_iff_exists.mp hsome
    have hsame : work = mailbox.work := by simpa [hwork] using hcurrent.2
    exact h.cancelled hfresh.2 (hsame ▸ hwork) hcancelled

theorem Delivery.deliver {results : List WorkerResult} (h : Delivery mailbox worker drained)
    (hresults : mailbox.results = result :: results) (hcurrent : mailbox.isCurrent result = true) :
    Delivery { mailbox with results } worker (drained ++ [(result, mailbox.next)]) := by
  have hmem : result ∈ mailbox.results := hresults ▸ mem_cons_self
  have hold : items mailbox worker = result.item :: items { mailbox with results } worker := by
    simp [items, hresults]
  have hmove : ∀ item ∈ items { mailbox with results } worker, item ∈ items mailbox worker :=
    fun item hitem => hold ▸ mem_cons_of_mem _ hitem
  have haccounts := h.accounts
  rw [hold, map_cons] at haccounts
  constructor
  · rw [map_append]
    exact haccounts.answer
  · exact fun item hitem => { h.dated item (hmove item hitem) with }
  · exact h.commands
  · exact h.held
  · exact fun other hother => h.results other (hresults ▸ mem_cons_of_mem _ hother)
  · exact h.unload
  · intro entry hentry
    rcases mem_append.mp hentry with hentry | hentry
    · exact { h.delivered entry hentry with }
    · rw [mem_singleton.mp hentry]
      refine ⟨h.results result hmem, le_rfl, fun hfresh => ?_⟩
      have hwanted := (h.dated _ (mem_items_result hmem)).wanted hcurrent hfresh
      rwa [← take_length (l := mailbox.calls)] at hwanted
  · exact h.bounded

theorem Delivery.drain (h : Delivery mailbox worker drained) (maximum : Nat) :
    Delivery (mailbox.drain maximum).2 worker (drained ++
      (mailbox.drain maximum).1.map fun result => (result, mailbox.next)) := by
  unfold MailboxState.drain
  have hall : ∀ (results : List WorkerResult) (maximum : Nat) drained,
      Delivery { mailbox with results } worker drained →
      Delivery
        { mailbox with results := (MailboxState.drainFrom mailbox.isCurrent maximum results).2 }
        worker (drained ++ (MailboxState.drainFrom mailbox.isCurrent maximum results).1.map
          fun result => (result, mailbox.next)) := by
    intro results
    induction results with
    | nil =>
      intro maximum drained hdelivery
      cases maximum <;> simpa [MailboxState.drainFrom] using hdelivery
    | cons result results ih =>
      intro maximum drained hdelivery
      cases maximum with
      | zero => simpa [MailboxState.drainFrom] using hdelivery
      | succ maximum =>
        rw [MailboxState.drainFrom]
        by_cases hcurrent : mailbox.isCurrent result = true
        · rw [if_pos hcurrent]
          have hnext := ih maximum _ (hdelivery.deliver rfl hcurrent)
          rw [append_assoc] at hnext
          exact hnext
        · rw [if_neg hcurrent]
          refine ih (maximum + 1) drained ?_
          have hsub : (items { mailbox with results } worker).Sublist
              (items { mailbox with results := result :: results } worker) :=
            (((sublist_cons_self _ _).map _).append (List.Sublist.refl _)).append
              (List.Sublist.refl _)
          refine hdelivery.move ⟨rfl, rfl, rfl, rfl⟩ (fun _ hcommand => hcommand) hdelivery.held
            (forall_mem_cons.mp hdelivery.results).2 .inl hsub
            fun item hitem hnot => ?_
          have hitem' : item = result.item := by
            simp only [items, map_cons, cons_append, mem_cons, mem_append]
              at hitem hnot
            tauto
          rw [hitem']
          exact (hdelivery.dated _ (mem_items_result mem_cons_self)).cut_of_not_current
            (Bool.eq_false_iff.mpr hcurrent)
  exact hall mailbox.results maximum drained h

end Steps

theorem delivery_invariant : Invariant Delivery where
  spawn _ := by
    refine ⟨.new, ?_, ?_, trivial, ?_, ?_, ?_, Nat.zero_le _, Nat.zero_le _⟩
    · exact fun _ h => absurd h not_mem_nil
    · exact forall_mem_nil _
    · exact fun _ h => absurd h not_mem_nil
    · rintro (h | ⟨_, h, _⟩)
      · exact h.elim
      · exact absurd h not_mem_nil
    · exact fun _ h => absurd h not_mem_nil
  wake h := h.notified
  activate context h _ := h.activate context
  event h hnext := h.event hnext
  cancel enqueueSuspend h _ := h.cancel enqueueSuspend
  resume context h hopen := h.resume context hopen
  close h := h.close
  drain maximum h := (h.drain maximum).notified
  starve h := h.step ⟨rfl, rfl, rfl, rfl⟩ rfl rfl trivial h.results fun hunloads => hunloads.elim
  take h hcommands := h.take hcommands
  execute loaded answer h := h.execute loaded answer
  lower h := h.step ⟨rfl, rfl, rfl, rfl⟩ rfl rfl h.held h.results id
  finish h := by
    refine h.step ⟨rfl, rfl, rfl, rfl⟩ ?_ rfl (Worker.of_after _ _) h.results Worker.unloads_after
    unfold items
    rw [Worker.items_after]
    rfl
  coalesce h hnext := h.coalesce hnext
  wait h hoffering _ := h.wait hoffering
  retain h hoffering _ := h.retain hoffering
  leave h := h.leave

end KeyReader.Component
