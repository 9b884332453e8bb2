import KeyReader.Runtime.Supervisor

/-! The callers of a document's client: a call swaps the sources of the client under its lock, and
its command is sent after the lock is free again. -/

namespace KeyReader.Runtime

/-- The calls that give a document something to do. -/
inductive Call (S : Type)
  | opening (source : S)
  | replace (workClass : WorkClass) (work : List Work)

namespace Call

variable {S : Type}

/-- A client only gives a class the work that fits it. -/
def valid : Call S → Bool
  | .opening _ => true
  | .replace workClass work => work.all (·.fits workClass)

/-- The calls that decide what is pending in a class, and those that decide the opening. -/
def affects : Call S → Option WorkClass → Bool
  | .opening _, _ => true
  | .replace workClass _, lane => lane = some workClass

theorem affects_replace {workClass : WorkClass} {work : List Work} {lane : Option WorkClass} :
    (replace workClass work : Call S).affects lane ↔ lane = some workClass :=
  decide_eq_true_iff

/-- The order of two calls matters. -/
def conflicts : Call S → Call S → Bool
  | .replace workClass _, .replace other _ => workClass = other
  | _, _ => true

theorem not_affects_of_not_conflicts {call other : Call S} (h : ¬call.conflicts other)
    {lane : Option WorkClass} (haffects : other.affects lane) : call.affects lane = false := by
  cases call with
  | opening source => exact absurd rfl h
  | replace workClass work =>
    cases other with
    | opening source => exact absurd rfl h
    | replace workClass' work' =>
      refine decide_eq_false fun hlane => h (decide_eq_true ?_)
      exact Option.some.inj (hlane.symm.trans (affects_replace.mp haffects))

end Call

/-- A call with the source that was made for it. -/
structure IssuedCall (S : Type) where
  call : Call S
  cancellation : Nat

/-- The sources of a client: those of its latest calls. -/
structure ClientCancellations where
  opening : Option Nat
  classes : AList fun _ : WorkClass => Nat

namespace ClientCancellations

def cancelAll (client : ClientCancellations) (states : Cancellations) :
    ClientCancellations × Cancellations :=
  ({ opening := none, classes := ∅ },
    states.cancelAll (client.opening.toList ++ client.classes.entries.map (·.2)))

section

variable (client : ClientCancellations)

def replaceOpen (states : Cancellations) : Nat × ClientCancellations × Cancellations :=
  let (client, states) := client.cancelAll states
  let (cancellation, states) := states.source
  (cancellation, { client with opening := some cancellation }, states)

def replaceClass (workClass : WorkClass) (states : Cancellations) :
    Nat × ClientCancellations × Cancellations :=
  let states := states.cancelAll (client.classes.lookup workClass).toList
  let (cancellation, states) := states.source
  (cancellation, { client with classes := client.classes.insert workClass cancellation }, states)

/-- What a call does while it has the lock. -/
def issue {S : Type} (call : Call S) (states : Cancellations) :
    IssuedCall S × ClientCancellations × Cancellations :=
  let (cancellation, client, states) := match call with
    | .opening _ => client.replaceOpen states
    | .replace workClass _ => client.replaceClass workClass states
  ({ call, cancellation }, client, states)

end

end ClientCancellations

namespace WorkQueue

variable {S : Type}

/-- What the command of a call does to the pending work. -/
def accept (queue : WorkQueue S) (capacity : Nat) (issued : IssuedCall S) : WorkQueue S :=
  match issued.call with
  | .opening source => queue.cancelAndClear.insertOpening source issued.cancellation
  | .replace workClass work =>
    (queue.replaceClass workClass work issued.cancellation capacity).2

end WorkQueue

/-- The callers of one client, each in a thread of its own, with the commands that are sent and the
pending work.  The lists of all calls, of those whose commands were accepted and of the work that
was taken are not part of the source. -/
structure Callers (S : Type) where
  client : ClientCancellations
  unsent : List (Nat × IssuedCall S)
  channel : List (IssuedCall S)
  queue : WorkQueue S
  calls : List (IssuedCall S)
  accepted : List (IssuedCall S)
  taken : List (PendingWork S)

inductive CallerEvent (S : Type)
  | lock (thread : Nat) (call : Call S)
  | send (thread : Nat)
  | accept
  | take

namespace Callers

variable {S : Type}

def start : Callers S :=
  { client := { opening := none, classes := ∅ }, unsent := [], channel := []
    queue := { pending := ∅, nextSequence := 1, states := ⟨0, []⟩ }
    calls := [], accepted := [], taken := [] }

def step (capacity : Nat) (callers : Callers S) : CallerEvent S → Option (Callers S)
  | .lock thread call =>
    if call.valid && callers.unsent.all (·.1 ≠ thread) then
      let (issued, client, states) := callers.client.issue call callers.queue.states
      some { callers with
        client
        queue := { callers.queue with states }
        unsent := callers.unsent ++ [(thread, issued)]
        calls := callers.calls ++ [issued] }
    else none
  | .send thread =>
    match callers.unsent.find? (·.1 = thread) with
    | none => none
    | some (_, issued) => some { callers with
        unsent := callers.unsent.eraseP (·.1 = thread)
        channel := callers.channel ++ [issued] }
  | .accept =>
    match callers.channel with
    | [] => none
    | issued :: channel => some { callers with
        channel
        queue := callers.queue.accept capacity issued
        accepted := callers.accepted ++ [issued] }
  | .take =>
    let (taken, queue) := callers.queue.popNext
    some { callers with queue, taken := callers.taken ++ taken.toList }

/-- No call that had the lock before the one that is sent, and whose order with it matters, is still
unsent. -/
def InOrder (callers : Callers S) (thread : Nat) : Prop :=
  ∀ issued ∈ callers.unsent.find? (·.1 = thread),
    ∀ earlier ∈ callers.unsent.takeWhile (·.1 ≠ thread), ¬earlier.2.call.conflicts issued.2.call

/-- The next command does not displace anything: a batch has a key for each item, and there is a
place for each besides the work of the other classes. -/
def Spacious (callers : Callers S) (capacity : Nat) : Prop :=
  ∀ issued ∈ callers.channel.head?, match issued.call with
    | .opening _ => True
    | .replace workClass work => (work.map (·.key workClass)).Nodup ∧
        (callers.queue.cancelClass workClass).pending.keys.length + work.length ≤ capacity

/-- The condition on the events of a run. -/
def Orderly (capacity : Nat) (callers : Callers S) : CallerEvent S → Prop
  | .send thread => callers.InOrder thread
  | .accept => callers.Spacious capacity
  | _ => True

instance decidableInOrder (callers : Callers S) (thread : Nat) : Decidable (callers.InOrder thread) :=
  inferInstanceAs (Decidable (∀ _ ∈ _, _))

instance decidableSpacious (capacity : Nat) (callers : Callers S) :
    Decidable (callers.Spacious capacity) :=
  match h : callers.channel.head? with
  | none => .isTrue (by simp [Spacious, h])
  | some ⟨.opening source, cancellation⟩ => .isTrue (by simp [Spacious, h])
  | some ⟨.replace workClass work, cancellation⟩ =>
    decidable_of_iff ((work.map (·.key workClass)).Nodup ∧
      (callers.queue.cancelClass workClass).pending.keys.length + work.length ≤ capacity)
      (by simp [Spacious, h])

instance decidableOrderly (capacity : Nat) (callers : Callers S) (event : CallerEvent S) :
    Decidable (Orderly capacity callers event) :=
  match event with
  | .lock .. => .isTrue trivial
  | .send thread => inferInstanceAs (Decidable (callers.InOrder thread))
  | .accept => inferInstanceAs (Decidable (callers.Spacious capacity))
  | .take => .isTrue trivial

end Callers

end KeyReader.Runtime
