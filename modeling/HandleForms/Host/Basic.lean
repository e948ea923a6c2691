import HandleForms.Barrier.Basic
import HandleForms.Handle.Op

/-!
# Hosts

A host supplies what forms cannot do themselves: primitives, members, classes and their instances.
Its code is a `Script`: a tree of requests, each of which says how to go on with the answer. A
script may look at and change the state of the host, the fields of objects, and make and invoke
handles in turn; it has no other access to the world that runs it.
-/

namespace HandleForms

/-- At which type a handle is called. -/
inductive CallSite where
  /-- At its own type. -/
  | basic
  /-- At a type that has to be the type of the handle. -/
  | exact (type : Signature)
  /-- At a type with the same basic type. -/
  | generic (type : Signature)

/-- Host code that ends with an answer of type `α` or an error of type `ε`; `σ` is the state of the
host. -/
inductive Script (σ ε α : Type) where
  /-- The code is over. -/
  | done (result : Except ε α)
  /-- The code gives up, and with it everything that is under way. -/
  | panic (text : String)
  | getState (next : σ → Script σ ε α)
  | setState (state : σ) (next : Script σ ε α)
  /-- Makes a value. -/
  | create (plan : Blueprint) (next : Value → Script σ ε α)
  /-- Reads a field of an object; one that was never set is `null`. -/
  | getField (object : Nat) (name : String) (next : Value → Script σ ε α)
  | setField (object : Nat) (name : String) (value : Value) (next : Script σ ε α)
  /-- Makes a handle. -/
  | make (op : HandleOp) (next : Except RuntimeError Handle → Script σ ε α)
  /-- The kind of the form that a handle has now. -/
  | formKind (target : Handle) (next : FormKind → Script σ ε α)
  /-- Invokes a handle, with limits of its own. -/
  | invoke (target : Handle) (site : CallSite) (args : List Value)
      (next : Except RuntimeError Value → Script σ ε α)
  /-- Passes the class barrier. -/
  | ensure (cls : String) (next : Except RuntimeError InitStatus → Script σ ε α)
  /-- Keeps a value alive until it is released or the code is over. -/
  | hold (value : Value) (next : Script σ ε α)
  /-- Lets go of the value that was held last. -/
  | release (next : Script σ ε α)

namespace Script

variable {σ ε α β : Type}

/-- Answers a value. -/
def pure (a : α) : Script σ ε α := done (.ok a)

/-- Reports an error. -/
def fail (e : ε) : Script σ ε α := done (.error e)

/-- Goes on with the result of a script, whatever it is. -/
def andThen {δ : Type} (k : Except ε α → Script σ δ β) : Script σ ε α → Script σ δ β
  | done result => k result
  | panic text => .panic text
  | getState next => .getState fun s => andThen k (next s)
  | setState s next => .setState s (andThen k next)
  | create plan next => .create plan fun v => andThen k (next v)
  | getField object name next => .getField object name fun v => andThen k (next v)
  | setField object name value next => .setField object name value (andThen k next)
  | make op next => .make op fun r => andThen k (next r)
  | formKind target next => .formKind target fun kind => andThen k (next kind)
  | invoke target site args next => .invoke target site args fun r => andThen k (next r)
  | ensure cls next => .ensure cls fun r => andThen k (next r)
  | hold value next => .hold value (andThen k next)
  | release next => .release (andThen k next)

/-- Goes on with the answer of a script; an error ends both. -/
def bind (s : Script σ ε α) (k : α → Script σ ε β) : Script σ ε β :=
  s.andThen fun
    | .ok a => k a
    | .error e => fail e

instance : Monad (Script σ ε) where
  pure := pure
  bind := bind

/-- The answer of a computation that needs nothing of the world. -/
def ofExcept (r : Except ε α) : Script σ ε α := done r

end Script

/-- What the forms of a world call out to. -/
structure Host (σ : Type) where
  /-- Whether a class is initialized. -/
  isInitialized : σ → String → Bool
  /-- Calls the primitive of a name. -/
  primitive : String → List Value → Script σ RuntimeError Value
  /-- Runs the body of a member. Instance members and constructors take the receiver first. -/
  member : DispatchKind → Member → List Value → Script σ RuntimeError Value
  /-- Runs the initializer of a class, or answers why it failed. -/
  initializer : String → Script σ String Unit
  /-- Allocates an instance for a constructor. -/
  allocate : String → Script σ RuntimeError Value := fun cls => .create (.object cls) .pure

end HandleForms
