import HandleForms.Edit.Derive
import HandleForms.Form.Linkage
import HandleForms.Handle.Invokers
import HandleForms.Host.Basic

/-!
# Worlds

A world is what handles are made and invoked in: the context with its caches, the class barrier, the
state of the host, the fields of objects, and what is kept alive. `Act` is the type of computations
that change a world and may stop; what was changed before they stop stays.

The caches of a context hold forms and handles weakly. `World.live` says which are alive: those that
can be reached from a value that the client holds, from a frame of a running form, from the
retainers, or from an object that can be reached from itself.
-/

namespace HandleForms

/-- Limits of one top-level invocation. -/
structure ExecLimits where
  /-- How many expressions may be evaluated. -/
  fuel : Nat := 1000000
  /-- How many forms may run inside each other. -/
  depth : Nat := 1024
  deriving DecidableEq, Repr

/-- What the handle slots and the handle retainer hold. -/
inductive Kept where
  | handle (h : Handle)
  | invokers (i : Invokers)

instance : Identified Kept where
  identity
    | .handle h => h.id
    | .invokers i => i.id

/-- What a running form keeps alive. -/
structure Frame where
  forms : List Form
  values : List Value

/-- A call that the host received, the end of an initializer that it ran, or a form that its code
looked at. -/
inductive HostCall where
  | primitive (name : String) (args : List Value)
  | member (kind : DispatchKind) (m : Member) (args : List Value)
  | allocate (cls : String)
  | initializer (cls : String)
  | ended (cls : String) (outcome : Except (Stop String) Unit)
  | looked (target : Handle) (form : Form)

/-- What happened so far, each time with the state of the host then, the latest first. -/
abbrev Journal (σ : Type) := List (HostCall × σ)

/-- The state of everything that handles are made and invoked in; `σ` is the state of the host. -/
structure World (σ : Type) where
  limits : ExecLimits
  context : Context Kept
  barrier : Barrier
  host : σ
  /-- The forms of the direct handles that dropped their barrier, each under the identity, the type and
  the member of the handle. -/
  swapped : List ((Nat × Signature × Member) × Form)
  /-- The fields of each object, in the order of their first assignment. -/
  fields : List (Nat × List (String × Value))
  invokers : InvokerTable
  /-- The values that the client holds. -/
  held : List Value
  /-- The frames of the running forms, the innermost first. -/
  frames : List Frame
  journal : Journal σ
  /-- The identity of the next array, handle, member, object or set of invokers. -/
  nextId : Nat

namespace World

variable {σ : Type}

/-- A world in which nothing happened yet. -/
def new (cache : CacheConfig) (limits : ExecLimits) (host : σ) : World σ where
  limits
  context := Context.new cache
  barrier := .empty
  host
  swapped := []
  fields := []
  invokers := .empty
  held := []
  frames := []
  journal := []
  nextId := 0

/-- The form that a handle has now. Only direct handles drop a barrier. -/
def currentForm (w : World σ) (h : Handle) : Form :=
  match h.data with
  | .direct _ m => (w.swapped.lookup (h.id, h.type, m)).getD h.form
  | _ => h.form

/-- A handle as diagnostics show it. -/
def describe (w : World σ) (h : Handle) : String :=
  "MethodHandle" ++ h.type.text ++ " " ++ (w.currentForm h).line

/-- The fields of an object, in the order of their first assignment. -/
def fieldsOf (w : World σ) (object : Nat) : List (String × Value) :=
  (w.fields.lookup object).getD []

/-- The value of a field; one that was never set is `null`. -/
def field (w : World σ) (object : Nat) (name : String) : Value :=
  ((w.fieldsOf object).lookup name).getD .null

/-- Sets a field. A field that is there keeps its place. -/
def setField (w : World σ) (object : Nat) (name : String) (value : Value) : World σ :=
  let fields := w.fieldsOf object
  let fields :=
    if (fields.lookup name).isSome then fields.map fun e => if e.1 == name then (name, value) else e
    else fields ++ [(name, value)]
  { w with fields := TypeForms.assign object fields w.fields }

/-- A new identity. -/
def freshId (w : World σ) : Nat × World σ := (w.nextId, { w with nextId := w.nextId + 1 })

/-- A new array. -/
def newArray (w : World σ) (element : Ty) (values : List Value) : Value × World σ :=
  let (id, w) := w.freshId
  (.array id element values, w)

/-- A new object without fields. -/
def newObject (w : World σ) (cls : String) : Value × World σ :=
  let (id, w) := w.freshId
  (.object id cls, w)

mutual

/-- Makes a value. The items of an array are made before it, in their order. -/
def make : Blueprint → World σ → Value × World σ
  | .given v, w => (v, w)
  | .array element items, w =>
    let (values, w) := makeAll items w
    w.newArray element values
  | .object cls, w => w.newObject cls

/-- Makes values one after the other. -/
def makeAll : List Blueprint → World σ → List Value × World σ
  | [], w => ([], w)
  | b :: bs, w =>
    let (v, w) := make b w
    let (vs, w) := makeAll bs w
    (v :: vs, w)

end

end World

/-! ## What is alive -/

/-- What can be found inside a value without following the fields of objects. -/
inductive Part where
  | handle (h : Handle)
  /-- An object, by its identity. -/
  | object (id : Nat)

namespace Part

/-- The identity of an object. -/
def object? : Part → Option Nat
  | object id => some id
  | handle _ => none

/-- The handle of a part that is one. -/
def handle? : Part → Option Handle
  | handle h => some h
  | object _ => none

end Part

mutual

/-- Adds the handles and objects inside a value: those in the elements of an array and in the values
that a handle has bound. -/
def Value.addParts (parts : List Part) : Value → List Part
  | .array _ _ values => Value.addPartsOf parts values
  | .handle h => Value.addPartsOfHandle parts h
  | .object id _ => .object id :: parts
  | _ => parts

/-- `Value.addParts` for some values. -/
def Value.addPartsOf (parts : List Part) : List Value → List Part
  | [] => parts
  | v :: vs => Value.addParts (Value.addPartsOf parts vs) v

/-- `Value.addParts` for a handle. -/
def Value.addPartsOfHandle (parts : List Part) : HandleOf Value → List Part
  | ⟨id, type, form, data⟩ => .handle ⟨id, type, form, data⟩ :: Value.addPartsOfData parts data

/-- `Value.addParts` for the data of a handle. -/
def Value.addPartsOfData (parts : List Part) : HandleData Value → List Part
  | .simple => parts
  | .bound _ values => Value.addPartsOf parts values
  | .direct _ _ => parts

end

/-- The handles and objects inside some values. -/
def Value.parts (values : List Value) : List Part := Value.addPartsOf [] values

namespace World

variable {σ : Type}

/-- The values of the fields of an object. -/
def fieldValues (w : World σ) (object : Nat) : List Value := (w.fieldsOf object).map Prod.snd

/-- The objects inside some values. -/
def objectsIn (values : List Value) : List Nat := (Value.parts values).filterMap Part.object?

/-- Some objects, and those that are reached from them through at most `steps` fields. -/
def closure (w : World σ) : Nat → List Nat → List Nat
  | 0, objects => objects
  | steps + 1, objects =>
    w.closure steps (objects ++ objects.flatMap fun o => objectsIn (w.fieldValues o)).eraseDups

/-- The objects that are reached from some values. No chain of fields without a repetition is longer
than the number of objects that have fields. -/
def reachedObjects (w : World σ) (values : List Value) : List Nat :=
  w.closure w.fields.length (objectsIn values).eraseDups

/-- The parts of some values and of the fields that are reached from them. -/
def reached (w : World σ) (values : List Value) : List Part :=
  Value.parts (values ++ (w.reachedObjects values).flatMap w.fieldValues)

/-- Whether an object can be reached from itself. -/
def isCyclic (w : World σ) (object : Nat) : Bool :=
  (w.reachedObjects (w.fieldValues object)).contains object

/-- The values that are kept alive by themselves. -/
def roots (w : World σ) : List Value :=
  w.held ++ w.frames.flatMap Frame.values ++
    (w.context.handleRetainer.values.flatMap fun
      | .handle h => [.handle h]
      | .invokers i => (w.invokers.handlesOf i).map .handle) ++
    ((w.fields.map Prod.fst).filter w.isCyclic).map fun object => .object object ""

/-- What is alive. -/
def live (w : World σ) : Live Kept :=
  let handles := (w.reached w.roots).filterMap Part.handle?
  let forms := w.frames.flatMap Frame.forms ++ w.context.formRetainer.values ++
    handles.map w.currentForm
  { form := fun f => forms.any (Form.reaches f.id)
    handle := fun
      | .handle h => handles.any fun g => g.id == h.id
      | .invokers i => w.context.handleRetainer.holds i.id }

end World

/-! ## Computations in a world -/

/-- A computation that changes a world and may stop. -/
abbrev Act (σ α : Type) := ExceptT (Stop RuntimeError) (StateM (World σ)) α

namespace Act

variable {σ α : Type}

/-- Stops with an error. -/
def fail (e : RuntimeError) : Act σ α := throw (.error e)

/-- Stops because a precondition does not hold. -/
def violate (v : Violation) : Act σ α := throw (.violation v)

/-- The answer of a computation that needs no world. -/
def ofStop (r : Except (Stop RuntimeError) α) : Act σ α := liftM r

/-- The answer of a computation that has preconditions. -/
def ofViolation (r : Except Violation α) : Act σ α := ofStop (Stop.ofViolation r)

/-- The answer of a computation that reports errors. -/
def ofError (r : Except RuntimeError α) : Act σ α := ofStop (Stop.ofError r)

/-- The answer of a computation on signatures. -/
def ofSignature (r : Except SignatureError α) : Act σ α := ofError (r.mapError .signature)

/-- Replaces the context. -/
def setContext (context : Context Kept) : Act σ Unit := modify fun w => { w with context }

/-- A computation in the context of the world. -/
def context (f : Live Kept → Context Kept → α × Context Kept) : Act σ α := do
  let w ← get
  let (a, c) := f w.live w.context
  setContext c
  return a

/-- A new identity. -/
def freshId : Act σ Nat := modifyGet World.freshId

/-- Edits a form. -/
def edit (base : Form) (e : Edit) : Act σ Form := do
  ofStop ((← context fun live c => c.edit live base e).mapError fun s => s.map RuntimeError.form)

/-- Puts down a call of the host. -/
def record (call : HostCall) : Act σ Unit :=
  modify fun w => { w with journal := (call, w.host) :: w.journal }

/-- Keeps some forms and values alive while a computation runs. -/
def withFrame (frame : Frame) (act : Act σ α) : Act σ α := fun w =>
  let (r, w') := act { w with frames := frame :: w.frames }
  (r, { w' with frames := w.frames })

end Act

end HandleForms
