import KeyReader.Runtime.Scheduler
import KeyReader.Runtime.Session

/-! The pending work of a document: a bounded table in which the work of a class is replaced as a
whole. -/

namespace KeyReader.Runtime

/-- The domains whose work is replaced independently. -/
inductive WorkClass
  | renderViewport
  | preview
  | visibleText
  | copyText
  | searchText
  | linkResolutionText
  | documentAnalysisText
  deriving DecidableEq

inductive Work
  | render (demand : RenderDemand)
  | text (demand : TextDemand)
  | preview (demand : PreviewDemand)

inductive WorkKey
  | opening
  | render (tile : TileKey)
  | text (workClass : WorkClass) (page : Nat)
  | preview
  deriving DecidableEq

namespace Work

def priority : Work → Nat
  | .render demand => demand.stamp.priority
  | .text demand => demand.stamp.priority
  | .preview demand => demand.stamp.priority

def key (work : Work) (workClass : WorkClass) : WorkKey :=
  match work with
  | .render demand => .render demand.key
  | .text demand => .text workClass demand.page
  | .preview _ => .preview

/-- The classes that a client gives the work to. -/
def fits : Work → WorkClass → Bool
  | .render _, workClass => workClass = .renderViewport
  | .text _, workClass => workClass ≠ .renderViewport && workClass ≠ .preview
  | .preview _, workClass => workClass = .preview

theorem key_ne_opening (work : Work) (workClass : WorkClass) : work.key workClass ≠ .opening := by
  cases work <;> exact WorkKey.noConfusion

end Work

inductive PendingKind (S : Type)
  | opening (source : S)
  | engine (work : Work)

structure PendingWork (S : Type) where
  sequence : Nat
  priority : Nat
  workClass : Option WorkClass
  cancellation : Nat
  kind : PendingKind S

def PendingWork.rank {S : Type} (pending : PendingWork S) : Lex (Nat × Nat) :=
  toLex (pending.priority, pending.sequence)

/-- The part of a document that holds its pending work, with the states of all sources. -/
structure WorkQueue (S : Type) where
  pending : AList fun _ : WorkKey => PendingWork S
  nextSequence : Nat
  states : Cancellations

namespace WorkQueue

variable {S : Type}

section

variable (queue : WorkQueue S)

def cancelSource (source : Nat) : WorkQueue S :=
  { queue with states := queue.states.cancel source }

/-- The numbers wrap around, past 0. -/
def allocateSequence : Nat × WorkQueue S :=
  (queue.nextSequence, { queue with
    nextSequence := if queue.nextSequence = u128Max then 1 else queue.nextSequence + 1 })

def cancelAndClear : WorkQueue S :=
  { queue with
    pending := ∅
    states := queue.states.cancelAll (queue.pending.entries.map (·.2.cancellation)) }

section

variable (workClass : WorkClass)

def cancelClass : WorkQueue S :=
  let removed := queue.pending.entries.filter (·.2.workClass = some workClass)
  { queue with
    pending := Table.retain
      (fun key => (queue.pending.lookup key).all (·.workClass ≠ some workClass)) queue.pending
    states := queue.states.cancelAll (removed.map (·.2.cancellation)) }

/-- The work takes the place of what was pending under its key. -/
def insertWork (cancellation : Nat) (work : Work) : Option (PendingWork S) × WorkQueue S :=
  let key := work.key workClass
  let (sequence, queue) := queue.allocateSequence
  (queue.pending.lookup key, { queue with
    pending := queue.pending.insert key
      { sequence, priority := work.priority, workClass := some workClass, cancellation
        kind := .engine work } })

/-- The work of the lowest rank is removed while there is too much, except the opening of a
document.  Each turn removes one entry. -/
def evict (capacity : Nat) : Nat → WorkQueue S → Nat × WorkQueue S
  | 0, queue => (0, queue)
  | turns + 1, queue =>
    if queue.pending.keys.length ≤ capacity then (0, queue)
    else match Table.lowest (· ≠ .opening) PendingWork.rank queue.pending with
      | none => (0, queue)
      | some candidate =>
        match queue.pending.lookup candidate with
        | none => (0, queue)
        | some evicted =>
          let queue := { queue with pending := queue.pending.erase candidate }
          let (rejected, queue) := evict capacity turns (queue.cancelSource evicted.cancellation)
          (rejected + 1, queue)

/-- One item of a batch. -/
def put (cancellation capacity : Nat) (work : Work) : Nat × WorkQueue S :=
  let (previous, queue) := queue.insertWork workClass cancellation work
  let queue := match previous with
    | none => queue
    | some previous => queue.cancelSource previous.cancellation
  queue.evict capacity queue.pending.keys.length

/-- The batch, item by item, with the number of items that were rejected. -/
def putAll (cancellation capacity : Nat) (work : List Work) : Nat × WorkQueue S :=
  work.foldl (fun (rejected, queue) work =>
    let (more, queue) := queue.put workClass cancellation capacity work
    (rejected + more, queue)) (0, queue)

def replaceClass (work : List Work) (cancellation capacity : Nat) : Nat × WorkQueue S :=
  (queue.cancelClass workClass).putAll workClass cancellation capacity work

end

def popNext : Option (PendingWork S) × WorkQueue S :=
  match Table.highest (fun _ => true) PendingWork.rank queue.pending with
  | none => (none, queue)
  | some key => (queue.pending.lookup key, { queue with pending := queue.pending.erase key })

def highestPendingPriority (pending : AList fun _ : WorkKey => PendingWork S) : Option Nat :=
  (pending.entries.map (·.2.priority)).max?

/-- The opening of a document. -/
def insertOpening (source : S) (cancellation : Nat) : WorkQueue S :=
  let (sequence, queue) := queue.allocateSequence
  { queue with
    pending := queue.pending.insert .opening
      { sequence, priority := DemandPriority.interactive, workClass := none, cancellation
        kind := .opening source } }

end

end WorkQueue

end KeyReader.Runtime
