import KeyReader.Component.Mailbox
import KeyReader.Extension.Changes

/-! What the host gets when a later result has replaced an earlier one: the state and the effects of
the results that it drains, against those of all results. -/

namespace KeyReader.Component

open Extension Compaction Transition List Option

section

variable (update : DeferredNativeUpdate)

/-- The snapshot of the host that an update brings, by its key. -/
def snapshotOf : Option (String × DataValue) :=
  match update.call with
  | .event envelope => (snapshotStateUpdate envelope).map fun (snapshot, value) =>
      (snapshotNamespace snapshot, value)
  | _ => none

/-- A command may replace the host's own part of the state. -/
def replacesAll : Bool :=
  match update.call with
  | .event envelope => envelope.event.isCommand
  | _ => false

def incomingState : Option Fields :=
  match update.result with
  | .ok update => update.state
  | .error _ => none

/-- The part of `apply_deferred_adapter_update` that is about the state: the state of an update
replaces what is not the host's own, and a snapshot of the host comes on top. -/
def applyState (state : Fields) (update : DeferredNativeUpdate) : Fields :=
  let state := match incomingState update with
    | none => state
    | some incoming =>
      if replacesAll update then incoming else preserveHostStateNamespaces state incoming
  match snapshotOf update with
  | none => state
  | some (key, value) => Assoc.insert key value state

def effects (update : DeferredNativeUpdate) : List EffectRequest :=
  match update.result with
  | .ok update => update.effects
  | .error _ => []

/-- What the state of an update leaves under a key. -/
def writesState (key : String) : Option (Option DataValue) :=
  match incomingState update with
  | none => none
  | some incoming =>
    if replacesAll update = true ∨ key ∉ hostStateNamespaces then some (Assoc.get key incoming)
    else none

/-- What an update leaves under a key of the state, if it has a say in it. -/
def writes (key : String) : Option (Option DataValue) :=
  match snapshotOf update with
  | none => writesState update key
  | some (other, value) => if other = key then some (some value) else writesState update key

end

theorem get_preserveHostStateNamespaces_other {current incoming : Fields} {key : String}
    (hkey : key ∉ hostStateNamespaces) :
    Assoc.get key (preserveHostStateNamespaces current incoming) = Assoc.get key incoming := by
  have hkeys : ∀ (keys : List String) incoming, key ∉ keys →
      Assoc.get key (keys.foldl (preserveNamespace current) incoming) = Assoc.get key incoming := by
    intro keys
    induction keys with
    | nil => exact fun _ _ => rfl
    | cons first keys ih =>
      intro incoming hnot
      obtain ⟨hfirst, hkeys⟩ := not_or.mp (mem_cons.not.mp hnot)
      rw [foldl_cons, ih _ hkeys, get_preserveNamespace, if_neg (Ne.symm hfirst)]
  exact hkeys _ _ hkey

theorem get_incomingState (state : Fields) (update : DeferredNativeUpdate) (key : String) :
    Assoc.get key (match incomingState update with
      | none => state
      | some incoming =>
        if replacesAll update then incoming else preserveHostStateNamespaces state incoming) =
      (writesState update key).getD (Assoc.get key state) := by
  unfold writesState
  cases incomingState update with
  | none => rfl
  | some incoming =>
    cases replacesAll update with
    | true => simp
    | false =>
      by_cases hkey : key ∈ hostStateNamespaces
      · simp [hkey, get_preserveHostStateNamespaces hkey]
      · simp [hkey, get_preserveHostStateNamespaces_other hkey]

theorem get_applyState (state : Fields) (update : DeferredNativeUpdate) (key : String) :
    Assoc.get key (applyState state update) = (writes update key).getD (Assoc.get key state) := by
  have hincoming := get_incomingState state update key
  unfold applyState writes
  cases snapshotOf update with
  | none => exact hincoming
  | some entry =>
    obtain ⟨other, value⟩ := entry
    dsimp only
    rw [Assoc.get_insert]
    split
    · rfl
    · exact hincoming

/-- The mailbox while the epochs stay the same, the updates that the host has drained, and all
updates that the worker has handed over. -/
structure Feed where
  mailbox : MailboxState
  delivered : List DeferredNativeUpdate
  produced : List DeferredNativeUpdate

def Feed.start (limits : WasmRuntimeLimits) (lifecycle work : Nat) : Feed :=
  ⟨{ MailboxState.new limits with lifecycle, work }, [], []⟩

inductive Turn
  | retain (result : WorkerResult)
  | drain (maximum : Nat)

/-- One result after the other is retained, as soon as there is room, and the host drains at any
time. -/
def Feed.step (feed : Feed) : Turn → Option Feed
  | .retain result =>
    if feed.mailbox.isCurrent result then
      let produced := feed.produced ++ [result.update]
      match feed.mailbox.coalesce result with
      | some mailbox => some { feed with mailbox, produced }
      | none =>
        if feed.mailbox.mustWait result then none
        else some { feed with mailbox := feed.mailbox.retain result, produced }
    else none
  | .drain maximum =>
    let (results, mailbox) := feed.mailbox.drain maximum
    some { feed with mailbox, delivered := feed.delivered ++ results.map (·.update) }

/-- Some updates give the same state and the same effects as others. -/
def Agree (state : Fields) (updates others : List DeferredNativeUpdate) : Prop :=
  (∀ key, Assoc.get key (updates.foldl applyState state) =
    Assoc.get key (others.foldl applyState state)) ∧
  updates.flatMap effects = others.flatMap effects

def Feed.Current (feed : Feed) : Prop :=
  feed.mailbox.closed = false ∧ ∀ result ∈ feed.mailbox.results, feed.mailbox.isCurrent result = true

theorem drainFrom_append {isCurrent : WorkerResult → Bool} {results : List WorkerResult}
    (h : ∀ result ∈ results, isCurrent result = true) (maximum : Nat) :
    (MailboxState.drainFrom isCurrent maximum results).1 ++
      (MailboxState.drainFrom isCurrent maximum results).2 = results := by
  induction results generalizing maximum with
  | nil =>
    cases maximum with
    | zero | succ maximum => rfl
  | cons result results ih =>
    cases maximum with
    | zero => rfl
    | succ maximum =>
      rw [MailboxState.drainFrom, if_pos (h result mem_cons_self)]
      exact congrArg _ (ih (forall_mem_cons.mp h).2 maximum)

variable {result : WorkerResult}

theorem effects_of_coalescingKey {key : CoalescingKey} (h : result.coalescingKey = some key) :
    effects result.update = [] := by
  unfold WorkerResult.coalescingKey at h
  unfold effects
  split at h
  · cases h
  · rename_i update hresult
    split at h
    · rename_i hempty
      rw [hresult]
      simpa using hempty
    · cases h

theorem coalesce_cases {mailbox next : MailboxState} (h : mailbox.coalesce result = some next) :
    ∃ before dropped after, mailbox.results = before ++ dropped :: after ∧
      mailbox.replaced result = some before.length ∧ effects dropped.update = [] ∧
      next = { mailbox with results := before ++ after ++ [result] } := by
  obtain ⟨index, hreplaced, rfl⟩ := map_eq_some_iff.mp h
  obtain ⟨key, hkey, hmatch⟩ := bind_eq_some_iff.mp hreplaced
  obtain ⟨before, dropped, after, hresults, rfl, -, hdropped, -⟩ := trailingMatch_eq_some hmatch
  refine ⟨before, dropped, after, hresults, hreplaced,
    effects_of_coalescingKey (of_decide_eq_true hdropped), ?_⟩
  rw [hresults, eraseIdx_append_of_length_le le_rfl, Nat.sub_self]
  rfl

variable {state : Fields}

theorem Agree.append {updates others : List DeferredNativeUpdate} (h : Agree state updates others)
    (last : DeferredNativeUpdate) : Agree state (updates ++ [last]) (others ++ [last]) := by
  obtain ⟨hstate, heffects⟩ := h
  constructor
  · intro key
    rw [foldl_append, foldl_append, foldl_cons, foldl_cons]
    exact (get_applyState _ last key).trans (by rw [hstate, ← get_applyState]; rfl)
  · rw [flatMap_append, flatMap_append, heffects]

variable {feed : Feed}

theorem Feed.Current.drain (h : feed.Current) (maximum : Nat) :
    (feed.mailbox.drain maximum).1 ++ (feed.mailbox.drain maximum).2.results =
      feed.mailbox.results := drainFrom_append h.2 maximum

theorem Feed.Current.retain (h : feed.Current) (hnew : feed.mailbox.isCurrent result = true) :
    feed.mailbox.retain result =
      { feed.mailbox with results := feed.mailbox.results ++ [result] } := by
  unfold MailboxState.retain
  rw [if_pos (by simp [hnew, h.1])]

/-- A step keeps the results current. -/
theorem Feed.Current.step {next : Feed} {turn : Turn} (h : feed.Current)
    (hstep : feed.step turn = some next) : next.Current := by
  cases turn with
  | drain maximum =>
    cases hstep
    refine ⟨h.1, fun result hresult => h.2 result ?_⟩
    rw [← h.drain maximum]
    exact mem_append_right _ hresult
  | retain result =>
    unfold Feed.step at hstep
    dsimp only at hstep
    split at hstep
    · rename_i hnew
      split at hstep
      · rename_i mailbox hcoalesce
        cases hstep
        obtain ⟨before, dropped, after, hresults, -, -, rfl⟩ := coalesce_cases hcoalesce
        refine ⟨h.1, fun other hother => ?_⟩
        rcases mem_append.mp hother with hother | hother
        · refine h.2 other ?_
          rw [hresults]
          rcases mem_append.mp hother with hother | hother
          · exact mem_append_left _ hother
          · exact mem_append_right _ (mem_cons_of_mem _ hother)
        · rw [mem_singleton.mp hother]
          exact hnew
      · split at hstep
        · cases hstep
        · cases hstep
          refine ⟨?_, fun other hother => ?_⟩
          · rw [h.retain hnew]
            exact h.1
          · rw [h.retain hnew] at hother ⊢
            rcases mem_append.mp hother with hother | hother
            · exact h.2 other hother
            · rw [mem_singleton.mp hother]
              exact hnew
    · cases hstep

end KeyReader.Component
