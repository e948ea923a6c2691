import HandleForms.Violation

/-!
# The class barrier

The barrier lets the initializer of a class run at most once. It tracks the classes whose
initializer is running or has failed; each has a slot with a state. The thread that finds a pending
slot runs the initializer, calls of that thread for the same class pass meanwhile, and those of
other threads wait. When the initializer succeeds the class is not tracked any more: from then on
the host itself reports it initialized. A failure stays, and every later call gets its reason.

The first sections are the atomic steps of a call; `Barrier.ensure` strings them together for a
thread that is not interrupted.
-/

namespace HandleForms

/-- The identity of a thread. -/
abbrev ThreadId := Nat

/-- How far the initialization of a class is. -/
inductive InitState where
  | pending
  /-- The initializer is running on this thread. -/
  | running (owner : ThreadId)
  | initialized
  | failed (reason : String)
  deriving DecidableEq, Repr

/-- How a call passes the barrier. -/
inductive InitStatus where
  /-- The class is initialized. -/
  | done
  /-- The calling thread is running the initializer of the class. -/
  | reentrant
  deriving DecidableEq, Repr, Inhabited

/-- The name of a status. -/
def InitStatus.name : InitStatus → String
  | done => "Done"
  | reentrant => "Reentrant"

/-- What a call learns from the slot of its class. -/
inductive InitTurn where
  | answer (result : Except String InitStatus)
  /-- Another thread is running the initializer. -/
  | wait
  /-- The class got initialized; its entry has to be removed. -/
  | remove
  /-- It is up to the caller to run the initializer. -/
  | run

/-- The slots made so far and the classes that are tracked. -/
structure Barrier where
  /-- The slot of each tracked class. -/
  entries : List (String × Nat)
  /-- The states of the slots, by their number. -/
  states : List InitState
  deriving DecidableEq, Repr

namespace Barrier

/-- A barrier that tracks no class. -/
def empty : Barrier := ⟨[], []⟩

instance : Inhabited Barrier := ⟨empty⟩

/-- Whether the initializer of a class is running or has failed. -/
def isTracked (b : Barrier) (cls : String) : Bool := (b.entries.lookup cls).isSome

/-- The number of tracked classes. -/
def size (b : Barrier) : Nat := b.entries.length

/-- The state of a slot. -/
def state (b : Barrier) (slot : Nat) : InitState := (b.states[slot]?).getD .pending

/-- Changes the state of a slot. -/
def setState (b : Barrier) (slot : Nat) (s : InitState) : Barrier :=
  { b with states := b.states.set slot s }

/-! ## Atomic steps -/

/-- The slot of a class, which is tracked from now on. -/
def enter (b : Barrier) (cls : String) : Nat × Barrier :=
  match b.entries.lookup cls with
  | some slot => (slot, b)
  | none => (b.states.length, ⟨(cls, b.states.length) :: b.entries, b.states ++ [.pending]⟩)

/-- Looks at the slot, and claims it when it is pending. `initialized` is what the host says of the
class at this moment; it is asked about pending slots only. -/
def inspect (b : Barrier) (slot : Nat) (me : ThreadId) (initialized : Bool) : InitTurn × Barrier :=
  match b.state slot with
  | .initialized => (.answer (.ok .done), b)
  | .failed reason => (.answer (.error reason), b)
  | .running owner => (if owner = me then .answer (.ok .reentrant) else .wait, b)
  | .pending =>
    if initialized then (.remove, b.setState slot .initialized)
    else (.run, b.setState slot (.running me))

/-- The state that an initializer leaves. -/
def outcomeState : Except (Stop String) Unit → InitState
  | .ok () => .initialized
  | .error (.error reason) => .failed reason
  | .error (.violation _) => .failed "initializer panicked"

/-- Puts down how the initializer ended. -/
def settle (b : Barrier) (slot : Nat) (outcome : Except (Stop String) Unit) : Barrier :=
  b.setState slot (outcomeState outcome)

/-- Stops tracking a class. -/
def remove (b : Barrier) (cls : String) : Barrier :=
  { b with entries := b.entries.filter fun e => e.1 != cls }

/-! ## A whole call -/

/-- What a call does besides looking at the barrier. -/
structure Caller (m : Type → Type) where
  /-- The barrier as it is now. -/
  get : m Barrier
  set : Barrier → m Unit
  /-- Whether the host reports the class initialized. -/
  isInitialized : m Bool
  /-- Runs the initializer. -/
  initializer : m (Except (Stop String) Unit)

/-- Makes sure that a class is initialized, or answers the reason why it is not. The initializer may
itself call the barrier. -/
def ensure {m : Type → Type} [Monad m] (caller : Caller m) (me : ThreadId) (cls : String) :
    m (Except (Stop String) InitStatus) := do
  if ← caller.isInitialized then return .ok .done
  let (slot, b) := (← caller.get).enter cls
  caller.set b
  let initialized ← if b.state slot = .pending then caller.isInitialized else pure false
  let (turn, b) := (← caller.get).inspect slot me initialized
  caller.set b
  match turn with
  | .answer (.ok status) => return .ok status
  | .answer (.error reason) => return .error (.error reason)
  | .wait => return .error (.violation .neverReady)
  | .remove =>
    caller.set (b.remove cls)
    return .ok .done
  | .run =>
    let outcome ← caller.initializer
    let b := (← caller.get).settle slot outcome
    match outcome with
    | .ok () =>
      caller.set (b.remove cls)
      return .ok .done
    | .error stop =>
      caller.set b
      return .error stop

end Barrier

end HandleForms
