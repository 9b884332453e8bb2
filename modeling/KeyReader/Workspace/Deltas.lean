import KeyReader.OrderedMap
import KeyReader.Workspace.Allocation

/-! The registry of resource participants, and what a consumer of its deltas holds. -/

namespace KeyReader.Workspace

open Std OrderedMap Option Function

structure AllocationChange where
  previous : Option ResourceAllocation
  current : ResourceAllocation

structure Reconciliation where
  plan : Option AllocationPlan
  changed : List AllocationChange
  removed : List UInt64

structure ParticipantRecord where
  snapshot : ParticipantSnapshot
  allocation : Option ResourceAllocation

abbrev Participants := ExtTreeMap UInt64 ParticipantRecord

structure ResourceRegistry where
  participants : Participants
  removed : List UInt64

namespace ResourceRegistry

def new : ResourceRegistry := ⟨∅, []⟩

section

variable (registry : ResourceRegistry)

def upsert (snapshot : ParticipantSnapshot) : ResourceRegistry :=
  let record := match registry.participants[snapshot.id]? with
    | some record => { record with snapshot }
    | none => ⟨snapshot, none⟩
  { registry with participants := registry.participants.insert snapshot.id record }

section

variable (id : UInt64)

/-- What `set_activity` and `set_profile` share: they answer whether the snapshot has changed. -/
def update (change : ParticipantSnapshot → ParticipantSnapshot) : Bool × ResourceRegistry :=
  match registry.participants[id]? with
  | none => (false, registry)
  | some record => (record.snapshot ≠ change record.snapshot, { registry with
      participants := registry.participants.insert id
        { record with snapshot := change record.snapshot } })

def setActivity (activity : ActivityLevel) : Bool × ResourceRegistry :=
  registry.update id fun snapshot => { snapshot with activity }

def setProfile (profile : ResourceProfile) : Bool × ResourceRegistry :=
  registry.update id fun snapshot => { snapshot with profile }

def remove : Bool × ResourceRegistry :=
  match registry.participants[id]? with
  | none => (false, registry)
  | some _ => (true, ⟨registry.participants.erase id, registry.removed ++ [id]⟩)

end

def allocation (registry : ResourceRegistry) (id : UInt64) : Option ResourceAllocation :=
  registry.participants[id]?.bind (·.allocation)

/-- The loop over the allocations of the plan.  There is no result if one of them belongs to no
participant, where the source panics. -/
def record : List ResourceAllocation → List AllocationChange → Participants →
    Option (List AllocationChange × Participants)
  | [], changed, participants => some (changed, participants)
  | allocation :: rest, changed, participants => do
    let found ← participants[allocation.id]?
    if found.allocation ≠ some allocation then
      record rest (changed ++ [⟨found.allocation, allocation⟩])
        (participants.insert allocation.id { found with allocation := some allocation })
    else record rest changed participants

def snapshots (participants : Participants) : List ParticipantSnapshot :=
  participants.toList.map fun entry => entry.2.snapshot

def reconcile (coordinator : ResourceCoordinator) : Option (Reconciliation × ResourceRegistry) := do
  let plan ← coordinator.plan (snapshots registry.participants)
  let (changed, participants) ← record plan.allocations [] registry.participants
  return (⟨some plan, changed, registry.removed⟩, ⟨participants, []⟩)

end

end ResourceRegistry

/-- The allocations that a consumer of the deltas holds. -/
abbrev Held := UInt64 → Option ResourceAllocation

def Held.change (held : Held) (changed : List AllocationChange) : Held :=
  changed.foldl (fun held change => update held change.current.id (some change.current)) held

def Held.drop (held : Held) (removed : List UInt64) : Held :=
  fun id => if id ∈ removed then none else held id

namespace ResourceRegistry

variable {participants : Participants}

/-- What the consumer should hold for a table of participants. -/
def shares (participants : Participants) : Held :=
  fun id => participants[id]?.bind (·.allocation)

/-- The table lists each participant under its own identity. -/
def Keyed (participants : Participants) : Prop :=
  ∀ (id : UInt64) (record : ParticipantRecord), participants[id]? = some record →
    record.snapshot.id = id

variable {registry : ResourceRegistry}

/-- The consumer holds what the table says, except for what was removed since. -/
structure Agrees (registry : ResourceRegistry) (held : Held) : Prop where
  keyed : Keyed registry.participants
  dropped : held.drop registry.removed = shares registry.participants

variable {held : Held}

section

variable (h : registry.Agrees held)

include h

theorem Agrees.insert {found : ParticipantRecord} {id : UInt64} (hid : found.snapshot.id = id)
    (hsame : found.allocation = shares registry.participants id) :
    Agrees { registry with participants := registry.participants.insert id found } held where
  keyed other record hrecord := by
    rw [getElem?_insert] at hrecord
    split at hrecord
    · rename_i hother
      rw [← some.inj hrecord, hid, hother]
    · exact h.keyed other record hrecord
  dropped := by
    rw [h.dropped]
    refine funext fun other => ?_
    conv_rhs => rw [shares, getElem?_insert]
    split
    · rename_i hother
      rw [← hother, ← hsame]
      rfl
    · rfl

theorem Agrees.upsert (snapshot : ParticipantSnapshot) :
    (registry.upsert snapshot).Agrees held := by
  unfold ResourceRegistry.upsert
  refine h.insert ?_ ?_
  · split <;> rfl
  · unfold shares
    split <;> rename_i heq <;> rw [heq] <;> rfl

theorem Agrees.update (id : UInt64) {change : ParticipantSnapshot → ParticipantSnapshot}
    (hchange : ∀ snapshot, (change snapshot).id = snapshot.id) :
    (registry.update id change).2.Agrees held := by
  unfold ResourceRegistry.update
  split
  · exact h
  · rename_i found hfound
    refine h.insert ((hchange _).trans (h.keyed id found hfound)) ?_
    rw [shares, hfound]
    rfl

theorem Agrees.remove (id : UInt64) : (registry.remove id).2.Agrees held := by
  unfold ResourceRegistry.remove
  split
  · exact h
  · refine ⟨fun other record hrecord => ?_, funext fun other => ?_⟩
    · rw [getElem?_erase] at hrecord
      split at hrecord
      · cases hrecord
      · exact h.keyed other record hrecord
    · have hother := congrFun h.dropped other
      unfold Held.drop shares at hother ⊢
      rw [getElem?_erase]
      by_cases hself : id = other
      · rw [if_pos (by simp [hself]), if_pos hself]
        rfl
      · rw [if_neg hself, ← hother]
        simp [Ne.symm hself]

end

end ResourceRegistry

inductive RegistryCall
  | upsert (snapshot : ParticipantSnapshot)
  | setActivity (id : UInt64) (activity : ActivityLevel)
  | setProfile (id : UInt64) (profile : ResourceProfile)
  | remove (id : UInt64)
  | reconcile (coordinator : ResourceCoordinator)

/-- A registry with a consumer that applies what is removed before what is changed, the removals
that were reported to it, and those that were made. -/
structure Watched where
  registry : ResourceRegistry
  held : Held
  reported : List UInt64
  removals : List UInt64

namespace Watched

def new : Watched := ⟨.new, fun _ => none, [], []⟩

def step (watched : Watched) : RegistryCall → Option Watched
  | .upsert snapshot => some { watched with registry := watched.registry.upsert snapshot }
  | .setActivity id activity => some { watched with
      registry := (watched.registry.setActivity id activity).2 }
  | .setProfile id profile => some { watched with
      registry := (watched.registry.setProfile id profile).2 }
  | .remove id => some { watched with
      registry := (watched.registry.remove id).2
      removals := watched.removals ++ if (watched.registry.remove id).1 then [id] else [] }
  | .reconcile coordinator => do
    let (reconciliation, registry) ← watched.registry.reconcile coordinator
    return { watched with
      registry
      held := (watched.held.drop reconciliation.removed).change reconciliation.changed
      reported := watched.reported ++ reconciliation.removed }

def run (calls : List RegistryCall) : Option Watched := calls.foldlM step new

/-- The consumer agrees with the registry, and each removal is reported or about to be. -/
structure Faithful (watched : Watched) : Prop where
  agrees : watched.registry.Agrees watched.held
  reported : watched.reported ++ watched.registry.removed = watched.removals

open ResourceRegistry

variable {watched : Watched}

end Watched

end KeyReader.Workspace
