import HandleForms.Barrier.Basic

/-!
# Threads at the class barrier

Several threads call the barrier at once. A call is a sequence of atomic steps, and a thread has a
stack of calls, since an initializer may call the barrier again before it ends. `Threads.step` makes
one step of one thread; a run is any sequence of events. `Threads.round` lets the threads take
turns.
-/

namespace HandleForms

/-- Where a call stands between two of its atomic steps. -/
inductive CallPhase where
  /-- Nothing was asked yet. -/
  | start
  /-- The host said that the class is not initialized. -/
  | enter
  /-- The slot of the class is known and has to be looked at. -/
  | inspect (slot : Nat)
  /-- The initializer is running. -/
  | running (slot : Nat)
  /-- The initializer has ended. -/
  | settle (slot : Nat) (outcome : Except (Stop String) Unit)
  /-- The slot says that the class is initialized; its entry has to be removed. -/
  | remove
  /-- The call is over. -/
  | returned (result : Except (Stop String) InitStatus)

/-- A call of the barrier. -/
structure BarrierCall where
  cls : String
  phase : CallPhase

/-- Threads that share a barrier. -/
structure Threads where
  barrier : Barrier
  /-- The classes that the host reports initialized. -/
  initialized : List String
  /-- The open calls of each thread, the innermost first. -/
  calls : List (List BarrierCall)
  /-- The initializers that were started, with their threads, the latest first. -/
  started : List (ThreadId × String)
  /-- The calls that are over, with their threads, the latest first. -/
  results : List (ThreadId × String × Except (Stop String) InitStatus)

namespace Threads

/-- What can happen next. -/
inductive Event where
  /-- A thread calls the barrier; it is idle or runs an initializer. -/
  | call (thread : ThreadId) (cls : String)
  /-- A thread makes its next atomic step. -/
  | step (thread : ThreadId)
  /-- The initializer that a thread is running ends. -/
  | finish (thread : ThreadId) (outcome : Except (Stop String) Unit)

/-- Idle threads at a barrier that tracks nothing. -/
def idle (threads : Nat) : Threads := ⟨.empty, [], List.replicate threads [], [], []⟩

/-- Replaces the open calls of a thread. -/
def setCalls (t : Threads) (thread : ThreadId) (calls : List BarrierCall) : Threads :=
  { t with calls := t.calls.set thread calls }

/-- The next atomic step of the innermost call of a thread. There is none while it waits for another
thread or for its initializer. -/
def advance (t : Threads) (thread : ThreadId) (c : BarrierCall) (outer : List BarrierCall) :
    Option Threads :=
  let goto (t : Threads) (phase : CallPhase) := t.setCalls thread (⟨c.cls, phase⟩ :: outer)
  match c.phase with
  | .start => some (goto t (if t.initialized.contains c.cls then .returned (.ok .done) else .enter))
  | .enter =>
    let (slot, barrier) := t.barrier.enter c.cls
    some (goto { t with barrier } (.inspect slot))
  | .inspect slot =>
    match t.barrier.inspect slot thread (t.initialized.contains c.cls) with
    | (.answer (.ok status), barrier) => some (goto { t with barrier } (.returned (.ok status)))
    | (.answer (.error reason), barrier) =>
      some (goto { t with barrier } (.returned (.error (.error reason))))
    | (.wait, _) => none
    | (.remove, barrier) => some (goto { t with barrier } .remove)
    | (.run, barrier) =>
      some (goto { t with barrier, started := (thread, c.cls) :: t.started } (.running slot))
  | .running _ => none
  | .settle slot outcome =>
    some (goto { t with barrier := t.barrier.settle slot outcome }
      (match outcome with
        | .ok () => .remove
        | .error stop => .returned (.error stop)))
  | .remove =>
    some (goto { t with barrier := t.barrier.remove c.cls } (.returned (.ok .done)))
  | .returned result =>
    some { t.setCalls thread outer with results := (thread, c.cls, result) :: t.results }

/-- What an event leads to, when it can happen. An initializer that succeeds leaves its class
initialized. -/
def next (t : Threads) : Event → Option Threads
  | .call thread cls =>
    match t.calls[thread]? with
    | some [] => some (t.setCalls thread [⟨cls, .start⟩])
    | some (⟨owner, .running slot⟩ :: outer) =>
      some (t.setCalls thread (⟨cls, .start⟩ :: ⟨owner, .running slot⟩ :: outer))
    | _ => none
  | .step thread =>
    match t.calls[thread]? with
    | some (c :: outer) => t.advance thread c outer
    | _ => none
  | .finish thread outcome =>
    match t.calls[thread]? with
    | some (⟨cls, .running slot⟩ :: outer) =>
      let t := match outcome with
        | .ok () => { t with initialized := cls :: t.initialized }
        | .error _ => t
      some (t.setCalls thread (⟨cls, .settle slot outcome⟩ :: outer))
    | _ => none

/-- The state after an event; one that cannot happen is skipped. -/
def after (t : Threads) (e : Event) : Threads := (t.next e).getD t

/-- The state after some events. -/
def run (t : Threads) (es : List Event) : Threads := es.foldl after t

/-- One turn of every thread, where a running initializer ends with `outcome`. -/
def round (outcome : Except (Stop String) Unit) (t : Threads) : Threads :=
  t.run ((List.range t.calls.length).flatMap fun thread => [.step thread, .finish thread outcome])

/-- Lets every thread call the barrier for one class until all calls are over. A call needs no more
than eight turns after the initializer has ended. -/
def race (threads : Nat) (cls : String) (outcome : Except (Stop String) Unit) : Threads :=
  let t := (idle threads).run ((List.range threads).map fun thread => .call thread cls)
  (List.range 16).foldl (fun t _ => t.round outcome) t

end Threads

end HandleForms
