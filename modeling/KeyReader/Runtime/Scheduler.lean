import KeyReader.Runtime.Cancellation
import KeyReader.Table
import KeyReader.Transition
import Mathlib.Data.Prod.Lex

/-! The bounded scheduler in which a newer demand takes the place of a pending one with its key. -/

namespace KeyReader.Runtime

def u128Max : Nat := 340282366920938463463374607431768211455

structure ScheduledDemand (K V : Type) where
  key : K
  revision : Nat
  priority : Nat
  value : V
  cancellation : Nat

inductive ScheduleOutcome (K V : Type)
  | queued (revision : Nat)
  | replaced (revision : Nat) (previous : V)
  | evicted (revision : Nat) (evicted : ScheduledDemand K V)
  | rejected (value : V)

def ScheduleOutcome.revision {K V : Type} : ScheduleOutcome K V → Option Nat
  | .queued revision => some revision
  | .replaced revision _ => some revision
  | .evicted revision _ => some revision
  | .rejected _ => none

inductive CompletionDisposition
  | publish
  | stale
  | unknown
  deriving DecidableEq

structure Queued (V : Type) where
  revision : Nat
  priority : Nat
  value : V
  cancellation : Nat

structure InFlight where
  revision : Nat
  cancellation : Nat

/-- How a demand leaves the queue. -/
inductive Departure
  | popped
  | replaced
  | evicted
  | cancelled
  | cleared
  deriving DecidableEq

/-- The scheduler, with the states of the sources that it makes.  The departures are not part of the
source: nothing reads them. -/
structure LatestWinsQueue (K V : Type) where
  capacity : Nat
  maxInFlight : Nat
  nextRevision : Nat
  queued : AList fun _ : K => Queued V
  inFlight : AList fun _ : K => InFlight
  latest : AList fun _ : K => Nat
  cancellations : Cancellations
  departed : List (Nat × Departure)

namespace LatestWinsQueue

variable {K V : Type}

def withMaxInFlight (capacity maxInFlight : Nat) : Option (LatestWinsQueue K V) :=
  if maxInFlight = 0 then none
  else some
    { capacity, maxInFlight, nextRevision := 1, queued := ∅, inFlight := ∅, latest := ∅
      cancellations := ⟨0, []⟩, departed := [] }

/-- The rank of a pending demand: by priority, and by revision among equal priorities. -/
def rank (queued : Queued V) : Lex (Nat × Nat) := toLex (queued.priority, queued.revision)

def cancelSource (queue : LatestWinsQueue K V) (source : Nat) : LatestWinsQueue K V :=
  { queue with cancellations := queue.cancellations.cancel source }

/-- A new revision, unless the revisions are exhausted: then the source panics. -/
def allocateRevision (queue : LatestWinsQueue K V) : Option (Nat × LatestWinsQueue K V) :=
  if queue.nextRevision + 1 ≤ u128Max then
    some (queue.nextRevision, { queue with nextRevision := queue.nextRevision + 1 })
  else none

variable [DecidableEq K]

section

variable (queue : LatestWinsQueue K V)

section

variable (key : K)

def cancelInFlight : LatestWinsQueue K V :=
  match queue.inFlight.lookup key with
  | none => queue
  | some inFlight => queue.cancelSource inFlight.cancellation

/-- The removal of a pending demand. -/
def depart (queued : Queued V) (departure : Departure) : LatestWinsQueue K V :=
  { queue with
    queued := queue.queued.erase key
    departed := queue.departed ++ [(queued.revision, departure)] }

/-- The end of `schedule`, once there is room for the demand. -/
def accept (priority : Nat) (value : V) : Option (Nat × LatestWinsQueue K V) := do
  let (revision, queue) ← queue.allocateRevision
  let (cancellation, cancellations) := queue.cancellations.source
  let queue := { queue with
    cancellations
    queued := queue.queued.insert key { revision, priority, value, cancellation } }
  let queue := queue.cancelInFlight key
  some (revision, { queue with latest := queue.latest.insert key revision })

/-- The eviction of a pending demand. -/
def evict (queued : Queued V) : ScheduledDemand K V × LatestWinsQueue K V :=
  let queue := (queue.depart key queued .evicted).cancelSource queued.cancellation
  ({ key, revision := queued.revision, priority := queued.priority, value := queued.value
     cancellation := queued.cancellation },
    if queue.latest.lookup key = some queued.revision then
      { queue with latest := queue.latest.erase key }
    else queue)

def schedule (priority : Nat) (value : V) : Option (ScheduleOutcome K V × LatestWinsQueue K V) :=
  if queue.capacity = 0 then some (.rejected value, queue)
  else match queue.queued.lookup key with
    | some previous => do
      let queue := (queue.depart key previous .replaced).cancelSource previous.cancellation
      let (revision, queue) ← queue.accept key priority value
      some (.replaced revision previous.value, queue)
    | none =>
      if queue.queued.keys.length < queue.capacity then do
        let (revision, queue) ← queue.accept key priority value
        some (.queued revision, queue)
      else do
        let evictionKey ← Table.lowest (fun _ => true) rank queue.queued
        let candidate ← queue.queued.lookup evictionKey
        if priority < candidate.priority then some (.rejected value, queue)
        else do
          let (evicted, queue) := queue.evict evictionKey candidate
          let (revision, queue) ← queue.accept key priority value
          some (.evicted revision evicted, queue)

def popNext : Option (ScheduledDemand K V) × LatestWinsQueue K V :=
  if queue.maxInFlight ≤ queue.inFlight.keys.length then (none, queue)
  else match Table.highest (fun key => (queue.inFlight.lookup key).isNone) rank queue.queued with
    | none => (none, queue)
    | some key =>
      match queue.queued.lookup key with
      | none => (none, queue)
      | some queued =>
        (some { key, revision := queued.revision, priority := queued.priority
                value := queued.value, cancellation := queued.cancellation },
          { queue.depart key queued .popped with
            inFlight := queue.inFlight.insert key
              { revision := queued.revision, cancellation := queued.cancellation } })

def finish (demand : ScheduledDemand K V) : CompletionDisposition × LatestWinsQueue K V :=
  if (queue.inFlight.lookup demand.key).map (·.revision) ≠ some demand.revision then
    (.unknown, queue)
  else
    let queue := { queue with inFlight := queue.inFlight.erase demand.key }
    if queue.latest.lookup demand.key = some demand.revision then
      (.publish, { queue with latest := queue.latest.erase demand.key })
    else (.stale, queue)

def cancel : Option V × LatestWinsQueue K V :=
  let queue := { queue with latest := queue.latest.erase key }.cancelInFlight key
  match queue.queued.lookup key with
  | none => (none, queue)
  | some queued => (some queued.value,
      (queue.depart key queued .cancelled).cancelSource queued.cancellation)

end

def clearPending : List V × LatestWinsQueue K V :=
  let cancellations := queue.cancellations.cancelAll (queue.inFlight.entries.map (·.2.cancellation))
  (queue.queued.entries.map (·.2.value), { queue with
    latest := ∅
    cancellations := cancellations.cancelAll (queue.queued.entries.map (·.2.cancellation))
    queued := ∅
    departed := queue.departed ++ queue.queued.entries.map (·.2.revision, .cleared) })

end

end LatestWinsQueue

end KeyReader.Runtime
