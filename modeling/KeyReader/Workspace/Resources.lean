import KeyReader.Machine
import Mathlib.Algebra.BigOperators.Group.List.Basic
import Mathlib.Algebra.Order.Ring.Nat

/-! The resource coordinator of the workspace: a budget for each kind of resource, and its weighted
distribution among the participants. -/

namespace KeyReader.Workspace

open Machine

def mib : UInt64 := 1024 * 1024

def gib : UInt64 := 1024 * mib

inductive ResourceMode
  | auto
  | saver
  | balanced
  | performance
  deriving DecidableEq

inductive ActivityLevel
  | suspended
  | backgroundCold
  | backgroundWarm
  | foregroundVisible
  | foregroundIdle
  | foregroundInteractive
  deriving DecidableEq

/-- The place of a level in the derived order. -/
def ActivityLevel.rank : ActivityLevel → Nat
  | .suspended => 0
  | .backgroundCold => 1
  | .backgroundWarm => 2
  | .foregroundVisible => 3
  | .foregroundIdle => 4
  | .foregroundInteractive => 5

def ActivityLevel.weight : ActivityLevel → Nat
  | .suspended => 0
  | .backgroundCold => 1
  | .backgroundWarm => 2
  | .foregroundVisible => 4
  | .foregroundIdle => 6
  | .foregroundInteractive => 8

structure ResourceAmount where
  cpuMemoryBytes : UInt64
  gpuMemoryBytes : UInt64
  workerSlots : UInt64
  networkSlots : UInt64
  deriving DecidableEq

def ResourceAmount.default : ResourceAmount := ⟨0, 0, 0, 0⟩

structure ResourceProfile where
  minimum : ResourceAmount
  target : ResourceAmount
  weight : UInt16
  suspendable : Bool
  deriving DecidableEq

def ResourceProfile.new (minimum target : ResourceAmount) : ResourceProfile :=
  ⟨minimum, target, 1, true⟩

structure ParticipantSnapshot where
  id : UInt64
  activity : ActivityLevel
  profile : ResourceProfile
  deriving DecidableEq

structure ResourceAllocation where
  id : UInt64
  activity : ActivityLevel
  amount : ResourceAmount
  deriving DecidableEq

structure SystemResources where
  physicalMemoryBytes : UInt64
  logicalCpus : UInt16
  lowPowerMode : Bool

structure AllocationPlan where
  requestedMode : ResourceMode
  effectiveMode : ResourceMode
  budget : ResourceAmount
  allocations : List ResourceAllocation

structure ResourceCoordinator where
  mode : ResourceMode
  system : SystemResources

def effectiveMode (mode : ResourceMode) (system : SystemResources) : ResourceMode :=
  if mode ≠ .auto then mode
  else if system.lowPowerMode ∨ system.physicalMemoryBytes ≤ 8 * gib ∨ system.logicalCpus ≤ 4 then
    .saver
  else if system.physicalMemoryBytes ≥ 24 * gib ∧ system.logicalCpus ≥ 8 then .performance
  else .balanced

/-- `u64::clamp` and `u64::max`. -/
def clamp (value low high : UInt64) : UInt64 :=
  if value < low then low else if high < value then high else value

def maxOf (a b : UInt64) : UInt64 := if a < b then b else a

/-- The budget of a mode.  The result is `none` for `Auto`, which the source takes for
unreachable. -/
def budgetFor (mode : ResourceMode) (system : SystemResources) : Option ResourceAmount :=
  let memory := maxOf system.physicalMemoryBytes (2 * gib)
  let cpus := maxOf system.logicalCpus.toUInt64 1
  match mode with
  | .auto => none
  | .saver => some {
      cpuMemoryBytes := clamp (memory / 10) (192 * mib) (2 * gib)
      gpuMemoryBytes := clamp (memory / 40) (64 * mib) (512 * mib)
      workerSlots := maxOf (cpus / 4) 1
      networkSlots := 2 }
  | .balanced => some {
      cpuMemoryBytes := clamp (memory / 5) (384 * mib) (6 * gib)
      gpuMemoryBytes := clamp (memory / 20) (128 * mib) (1536 * mib)
      workerSlots := maxOf (cpus / 2) 1
      networkSlots := 4 }
  | .performance => some {
      cpuMemoryBytes := clamp (memory * 35 / 100) (768 * mib) (12 * gib)
      gpuMemoryBytes := clamp (memory / 10) (256 * mib) (3 * gib)
      workerSlots := maxOf (if cpus = 0 then 0 else cpus - 1) 1
      networkSlots := 8 }

/-- One entry of a distribution: its cap, its weight, and what it has got so far. -/
structure Share where
  cap : Nat
  weight : Nat
  output : Nat

/-- The entries that still take part.  In the source `open` is the list of their indices. -/
def Share.isOpen (share : Share) : Bool := share.output < share.cap && 0 < share.weight

/-- One round: the open entries are visited in list order, until the budget of the round is used
up. -/
def round (roundBudget totalWeight : Nat) : Nat → List Share → Nat × List Share
  | progressed, [] => (progressed, [])
  | progressed, share :: rest =>
    if share.isOpen then
      let capacity := share.cap - share.output
      let wanted := max (roundBudget * share.weight / totalWeight) 1
      let granted := min (min capacity wanted) (roundBudget - progressed)
      let next := { share with output := saturatingAdd share.output granted }
      let progressed := saturatingAdd progressed granted
      if progressed = roundBudget then (progressed, next :: rest)
      else
        let (progressed, rest) := round roundBudget totalWeight progressed rest
        (progressed, next :: rest)
    else
      let (progressed, rest) := round roundBudget totalWeight progressed rest
      (progressed, share :: rest)

def totalWeight (shares : List Share) : Nat := ((shares.filter Share.isOpen).map Share.weight).sum

/-- Weighted distribution up to the caps. -/
def distribute (remaining : Nat) (shares : List Share) : List Share :=
  if 0 < remaining ∧ shares.any Share.isOpen then
    let total := totalWeight shares
    if total = 0 then shares
    else
      let (progressed, next) := round remaining total 0 shares
      if progressed = 0 then shares
      else distribute (remaining - progressed) next
  else shares
termination_by remaining

inductive Dimension
  | cpuMemory
  | gpuMemory
  | workers
  | network
  deriving DecidableEq

def Dimension.get : Dimension → ResourceAmount → UInt64
  | .cpuMemory => ResourceAmount.cpuMemoryBytes
  | .gpuMemory => ResourceAmount.gpuMemoryBytes
  | .workers => ResourceAmount.workerSlots
  | .network => ResourceAmount.networkSlots

def Dimension.set (amount : ResourceAmount) (value : UInt64) : Dimension → ResourceAmount
  | .cpuMemory => { amount with cpuMemoryBytes := value }
  | .gpuMemory => { amount with gpuMemoryBytes := value }
  | .workers => { amount with workerSlots := value }
  | .network => { amount with networkSlots := value }

/-- What a participant may ask for: its effective minimum and target, and its weight. -/
structure Demand where
  minimum : Nat
  target : Nat
  weight : Nat

def ParticipantSnapshot.isSuspended (participant : ParticipantSnapshot) : Bool :=
  participant.activity = .suspended && participant.profile.suspendable

def ParticipantSnapshot.demand (participant : ParticipantSnapshot) (dimension : Dimension) :
    Demand :=
  let minimum := if participant.isSuspended then 0
    else (dimension.get participant.profile.minimum).toNat
  let target := if participant.isSuspended then 0
    else if participant.activity = .suspended then minimum
    else max (dimension.get participant.profile.target).toNat minimum
  let weight := participant.activity.weight * max participant.profile.weight.toNat 1
  ⟨minimum, target, if participant.isSuspended then 0 else max weight 1⟩

section

variable (demands : List Demand)

/-- The minimums are distributed first. -/
def minimumShares : List Share :=
  demands.map fun demand => ⟨demand.minimum, demand.weight, 0⟩

def gapShares (values : List Nat) : List Share :=
  demands.zipWith (fun demand value =>
    let gap := demand.target - value
    ⟨gap, if gap > 0 then demand.weight else 0, 0⟩) values

def dimensionValues (budget : Nat) : List Nat :=
  let values := (distribute budget (minimumShares demands)).map Share.output
  let used := values.sum
  if used < budget then
    let extras := (distribute (budget - used) (gapShares demands values)).map Share.output
    values.zipWith saturatingAdd extras
  else values

end

def allocateDimension (participants : List ParticipantSnapshot) (budget : UInt64)
    (dimension : Dimension) (output : List ResourceAllocation) : List ResourceAllocation :=
  if budget = 0 ∨ participants = [] then output
  else
    let values := dimensionValues (participants.map (·.demand dimension)) budget.toNat
    output.zipWith (fun allocation value =>
      { allocation with amount := dimension.set allocation.amount (UInt64.ofNat value) }) values

def allocations (participants : List ParticipantSnapshot) (budget : ResourceAmount) :
    List ResourceAllocation :=
  let empty := participants.map fun participant =>
    ⟨participant.id, participant.activity, .default⟩
  let cpu := allocateDimension participants budget.cpuMemoryBytes .cpuMemory empty
  let gpu := allocateDimension participants budget.gpuMemoryBytes .gpuMemory cpu
  let workers := allocateDimension participants budget.workerSlots .workers gpu
  allocateDimension participants budget.networkSlots .network workers

def ResourceCoordinator.plan (coordinator : ResourceCoordinator)
    (participants : List ParticipantSnapshot) : Option AllocationPlan :=
  let effective := effectiveMode coordinator.mode coordinator.system
  (budgetFor effective coordinator.system).map fun budget =>
    ⟨coordinator.mode, effective, budget, allocations participants budget⟩

end KeyReader.Workspace
