import KeyReader.Checked
import KeyReader.Runtime.Cancellation

/-! Document sessions and the demands that are made of them. -/

namespace KeyReader.Runtime

def u64Max : Nat := 18446744073709551615

inductive AllocationError
  | requestIdsExhausted
  | resourceIdsExhausted
  deriving DecidableEq

inductive SessionError
  | generationsExhausted
  deriving DecidableEq

structure ResourceHandle where
  generation : Nat
  id : Nat
  deriving DecidableEq

/-- One attempt to open a document, with the counters that its clones share. -/
structure DocumentSession where
  generation : Nat
  cancellation : Nat
  nextRequest : Nat
  nextResource : Nat

/-- The value of a counter and the counter after it, unless the counter is exhausted. -/
def allocateNonZero (counter : Nat) : Option (Nat × Nat) :=
  if counter + 1 ≤ u64Max ∧ counter ≠ 0 then some (counter, counter + 1) else none

namespace DocumentSession

def token (session : DocumentSession) : CancellationToken := [session.cancellation]

def isCancelled (session : DocumentSession) (states : Cancellations) : Bool :=
  states.isCancelled session.token

def allocateResource (session : DocumentSession) :
    Except AllocationError (ResourceHandle × DocumentSession) :=
  match allocateNonZero session.nextResource with
  | none => .error .resourceIdsExhausted
  | some (id, nextResource) =>
    .ok ({ generation := session.generation, id }, { session with nextResource })

end DocumentSession

/-- The current session.  The next generation is 0 once they are exhausted. -/
structure DocumentSessionManager where
  nextGeneration : Nat
  active : Option DocumentSession

namespace DocumentSessionManager

def new : DocumentSessionManager := { nextGeneration := 1, active := none }

def close (manager : DocumentSessionManager) (states : Cancellations) :
    DocumentSessionManager × Cancellations :=
  match manager.active with
  | none => (manager, states)
  | some session => ({ manager with active := none }, states.cancel session.cancellation)

def begin (manager : DocumentSessionManager) (states : Cancellations) :
    Except SessionError DocumentSession × DocumentSessionManager × Cancellations :=
  if manager.nextGeneration = 0 then (.error .generationsExhausted, manager, states)
  else
    let generation := manager.nextGeneration
    let nextGeneration := if generation + 1 ≤ u64Max then generation + 1 else 0
    let (manager, states) := { manager with nextGeneration }.close states
    let (cancellation, states) := states.source
    let session := { generation, cancellation, nextRequest := 1, nextResource := 1 }
    (.ok session, { manager with active := some session }, states)

variable (manager : DocumentSessionManager)

section

variable (states : Cancellations)

@[simp] theorem nextGeneration_close :
    (manager.close states).1.nextGeneration = manager.nextGeneration := by
  unfold close
  split <;> rfl

@[simp] theorem active_close : (manager.close states).1.active = none := by
  unfold close
  split
  · assumption
  · rfl

theorem begin_cases : (manager.nextGeneration = 0 ∧
      manager.begin states = (.error .generationsExhausted, manager, states)) ∨
    ∃ session next states', manager.begin states = (.ok session, next, states') ∧
      manager.nextGeneration ≠ 0 ∧ session.generation = manager.nextGeneration ∧
      next.active = some session ∧
      (next.nextGeneration = 0 ∨ next.nextGeneration = manager.nextGeneration + 1) := by
  unfold begin
  split
  · rename_i hexhausted
    exact .inl ⟨hexhausted, rfl⟩
  · rename_i hnext
    dsimp only
    refine .inr ⟨_, _, _, rfl, hnext, rfl, rfl, ?_⟩
    rw [nextGeneration_close]
    split
    · exact .inr rfl
    · exact .inl rfl

end

end DocumentSessionManager

inductive DemandIntent
  | visible
  | interactive
  | prefetch
  | explicit
  | background
  deriving DecidableEq

def DemandPriority.interactive : Nat := 65535

structure DemandStamp where
  generation : Nat
  request : Nat
  priority : Nat
  intent : DemandIntent

structure RasterSize where
  width : Nat
  height : Nat
  deriving DecidableEq

structure PixelRect where
  x : Nat
  y : Nat
  width : Nat
  height : Nat

structure TileKey where
  page : Nat
  raster : RasterSize
  column : Nat
  row : Nat
  deriving DecidableEq

structure RenderDemand where
  stamp : DemandStamp
  key : TileKey
  coreRect : PixelRect
  renderRect : PixelRect

def RenderDemand.page (demand : RenderDemand) : Nat := demand.key.page

inductive TextDemandPurpose
  | visibleLayer
  | copy
  | search
  | linkResolution
  | documentAnalysis
  deriving DecidableEq

structure TextDemand where
  stamp : DemandStamp
  page : Nat
  purpose : TextDemandPurpose

structure PreviewDemand where
  stamp : DemandStamp
  page : Nat
  raster : RasterSize
  region : PixelRect

end KeyReader.Runtime
