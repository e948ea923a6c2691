import HandleForms.Handle.Adapt
import HandleForms.Trace

/-!
# Invocation

A form is run by evaluating its expressions in order, each over constants and the values of earlier
names. Calls of handles run their current forms in turn, and what forms cannot do goes to the host.
Every expression costs one unit of fuel, and the forms that run inside each other are limited.

Host code may invoke handles again. Such an invocation has limits of its own, so neither fuel nor
depth bounds how deeply host code and forms call each other; `Host.reenter` counts these levels
down, and a run that needs more of them has no answer.
-/

namespace HandleForms

/-- What host code may ask of the runtime that called it. -/
structure Reentry (σ : Type) where
  invoke : Handle → CallSite → List Value → Act σ Value
  ensure : String → Act σ InitStatus

/-- The state of one top-level invocation. -/
structure Execution (σ : Type) where
  world : World σ
  /-- How many expressions may still be evaluated. -/
  fuel : Nat
  /-- The trace, if one is kept. -/
  trace : Option Trace

/-- A computation inside an invocation. -/
abbrev Exec (σ α : Type) := ExceptT (Stop RuntimeError) (StateM (Execution σ)) α

namespace Act

variable {σ α : Type}

/-- The answer or the error of a computation; a broken precondition still stops. -/
def attempt (act : Act σ α) : Act σ (Except RuntimeError α) := fun w =>
  match act w with
  | (.ok a, w) => (.ok (.ok a), w)
  | (.error (.error e), w) => (.ok (.error e), w)
  | (.error (.violation v), w) => (.error (.violation v), w)

/-- What host code asks of the runtime; the values that the code holds are kept alive meanwhile. -/
def request (pinned : List Value) (act : Act σ α) : Act σ (Except RuntimeError α) :=
  withFrame ⟨[], pinned⟩ (attempt act)

/-- Runs host code that holds the values `pinned`. -/
def script {ε : Type} (host : Host σ) (re : Reentry σ) (pinned : List Value) :
    Script σ ε α → Act σ (Except ε α)
  | .done result => return result
  | .panic text => violate (.hostPanic text)
  | .getState next => do script host re pinned (next (← get).host)
  | .setState state next => do
    modify fun w => { w with host := state }
    script host re pinned next
  | .create plan next => do script host re pinned (next (← modifyGet (World.make plan)))
  | .getField object name next => do script host re pinned (next ((← get).field object name))
  | .setField object name value next => do
    modify fun w => w.setField object name value
    script host re pinned next
  | .make op next => do script host re pinned (next (← request pinned (perform host op)))
  | .formKind target next => do
    let form := (← get).currentForm target
    record (.looked target form)
    script host re pinned (next form.kind)
  | .invoke target site args next => do
    script host re pinned (next (← request pinned (re.invoke target site args)))
  | .ensure cls next => do script host re pinned (next (← request pinned (re.ensure cls)))
  | .hold value next => script host re (value :: pinned) next
  | .release next => script host re pinned.tail next

/-- Calls the host with some arguments. -/
def callHost {ε : Type} (host : Host σ) (re : Reentry σ) (call : HostCall) (args : List Value)
    (code : Script σ ε α) : Act σ (Except ε α) := do
  record call
  script host re args code

/-- How an initializer ends whose code came to this. -/
def initializerEnd : Except (Stop RuntimeError) (Except String Unit) → Except (Stop String) Unit
  | .ok (.ok ()) => .ok ()
  | .ok (.error reason) => .error (.error reason)
  | .error (.error e) => .error (.error e.message)
  | .error (.violation v) => .error (.violation v)

/-- Runs the initializer of a class and puts down how it ends. -/
def runInitializer (host : Host σ) (re : Reentry σ) (cls : String) :
    StateM (World σ) (Except (Stop String) Unit) := do
  let answer ← (callHost host re (.initializer cls) [] (host.initializer cls)).run
  modify fun w => { w with journal := (.ended cls (initializerEnd answer), w.host) :: w.journal }
  return initializerEnd answer

/-- Makes sure that a class is initialized. A world has one thread. -/
def ensure (host : Host σ) (re : Reentry σ) (cls : String) : Act σ InitStatus := do
  let caller : Barrier.Caller (StateM (World σ)) := {
    get := do return (← get).barrier
    set := fun barrier => modify fun w => { w with barrier }
    isInitialized := do return host.isInitialized (← get).host cls
    initializer := runInitializer host re cls }
  ofStop ((← (Barrier.ensure caller 0 cls : StateM (World σ) _)).mapError fun s =>
    s.map fun reason => RuntimeError.classInitFailed cls reason)

/-- Checks that arguments fit the parameters of a type. -/
def checkArguments (type : Signature) (args : List Value) : Except RuntimeError Unit :=
  if args.length ≠ type.arity then .error (.arityMismatch type.arity args.length)
  else
    match ((args.zip type.params).zipIdx).find? fun ((v, t), _) => v.basicType != t.basicType with
    | some ((v, t), i) => .error (.argumentType i t.basicType v.basicType)
    | none => .ok ()

end Act

namespace Exec

variable {σ α : Type}

/-- A computation in the world. -/
def act (a : Act σ α) : Exec σ α := fun e =>
  let (r, world) := a e.world
  (r, { e with world })

/-- Stops with an error. -/
def fail (e : RuntimeError) : Exec σ α := throw (.error e)

/-- Changes the trace, if one is kept. -/
def tracing (f : Trace → Trace) : Exec σ Unit := modify fun e => { e with trace := e.trace.map f }

/-- Keeps a form and some values alive while a computation runs. -/
def withFrame (frame : Frame) (a : Exec σ α) : Exec σ α := fun e =>
  let frames := e.world.frames
  let (r, e) := a { e with world := { e.world with frames := frame :: frames } }
  (r, { e with world := { e.world with frames } })

/-- Pays for one expression. -/
def consumeFuel : Exec σ Unit := do
  let e ← get
  match e.fuel with
  | 0 => fail .outOfFuel
  | fuel + 1 => set { e with fuel }

/-- The value of name or operand `index`. -/
def valueAt (values : List Value) (index : Nat) : Except Violation Value :=
  match values[index]? with
  | some v => .ok v
  | none => .error .outOfBounds

/-- The value of an operand. -/
def operand (values : List Value) : Arg → Except Violation Value
  | .name index => valueAt values index
  | .const c => .ok (.ofConstant c)

/-- How a form is run with its parameters bound to values. -/
abbrev Runner (σ : Type) := Form → List Value → Exec σ Value

/-- Runs the current form of a handle. The arguments leave the handle itself out. -/
def invokeHandle (run : Runner σ) (h : Handle) (args : List Value) : Exec σ Value := do
  let form := (← get).world.currentForm h
  withFrame ⟨[form], []⟩ (run form (.handle h :: args))

/-- Calls the host and answers what its code answers. -/
def callHost (host : Host σ) (re : Reentry σ) (call : HostCall) (args : List Value)
    (code : Script σ RuntimeError Value) : Exec σ Value :=
  act do
    let result ← Act.callHost host re call args code
    Act.ofError result

/-! ## Intrinsics -/

/-- The element count that the second operand of a length check asks for. -/
def elementCount (n : Int32) : Nat := n.toInt64.toUInt64.toNat

/-- Fails unless a value is an array of `expected` elements; `null` stands for no elements. -/
def checkSpreadLength (v : Value) (expected : Nat) : Except RuntimeError Value :=
  match v with
  | .null => if expected = 0 then .ok .void else .error (.nullPointer "argument spreading")
  | .array _ _ values =>
    if values.length = expected then .ok .void else .error (.spreadLength expected values.length)
  | v => .error (.classCast "array" v.sort)

/-- Loads an element of an array. -/
def arrayLoad (v : Value) (index : Int) : Except RuntimeError Value :=
  match v with
  | .array _ _ values => Value.element values index
  | .null => .error (.nullPointer "array load")
  | v => .error (.classCast "array" v.sort)

/-- The member of a direct handle. -/
def directMember (v : Value) : Exec σ (Nat × Member) := do
  let h ← act (Act.ofError v.asHandle)
  match h.member? with
  | some m => return m
  | none => fail (.classCast "direct method handle" ((← get).world.describe h))

/-- Reads a field of a carrier. -/
def boundField (species : Species) (index : Nat) (v : Value) : Exec σ Value := do
  let h ← act (Act.ofError v.asHandle)
  match h.data with
  | .bound actual values =>
    if actual == species then act (Act.ofViolation (valueAt values index))
    else fail (.classCast "bound method handle" ((← get).world.describe h))
  | _ => fail (.classCast "bound method handle" ((← get).world.describe h))

/-- Passes the class barrier of a direct handle. Once the class is initialized, the handle gets the
form without the barrier. -/
def passBarrier (host : Host σ) (re : Reentry σ) (v : Value) : Exec σ Value := do
  let h ← act (Act.ofError v.asHandle)
  let (_, m) ← directMember v
  match ← act (Act.ensure host re m.cls) with
  | .reentrant => return .void
  | .done =>
    let current := (← get).world.currentForm h
    if current.kind.hasBarrier then
      let prepared ← act (Act.directForm h.type m.kind false)
      tracing fun t => t.swap current prepared
      act (modify fun w =>
        { w with swapped := TypeForms.assign (h.id, h.type, m) prepared w.swapped })
    return .void

/-- Calls the handle in operand 0 with the other operands. -/
def invokeBasic (run : Runner σ) (callee : Signature) (args : List Value) : Exec σ Value := do
  let h ← act (Act.ofError (← act (Act.ofViolation (valueAt args 0))).asHandle)
  if h.type.basic ≠ callee then fail (.wrongType callee h.type)
  invokeHandle run h args.tail

/-- Applies an intrinsic. -/
def intrinsic (host : Host σ) (re : Reentry σ) (run : Runner σ) (op : Intrinsic)
    (args : List Value) : Exec σ Value := do
  let arg (index : Nat) : Exec σ Value := act (Act.ofViolation (valueAt args index))
  match op with
  | .invokeBasic callee => invokeBasic run callee args
  | .boundField species index => boundField species index (← arg 0)
  | .checkSpreadLength =>
    let expected ← act (Act.ofError (← arg 1).asInt)
    act (Act.ofError (checkSpreadLength (← arg 0) (elementCount expected)))
  | .arrayLoad _ =>
    let index ← act (Act.ofError (← arg 1).asInt)
    act (Act.ofError (arrayLoad (← arg 0) index.toInt))
  | .zero type => return .zero type
  | .identity _ => arg 0
  | .checkExactType =>
    let h ← act (Act.ofError (← arg 0).asHandle)
    let expected ← act (Act.ofError (← arg 1).asSignature)
    if h.type ≠ expected then fail (.wrongType expected h.type) else return .void
  | .checkGenericType =>
    let h ← act (Act.ofError (← arg 0).asHandle)
    let expected ← act (Act.ofError (← arg 1).asSignature)
    return .handle (← act (Act.asType h expected))
  | .ensureInitialized => passBarrier host re (← arg 0)
  | .internalMemberName | .constructorMember =>
    let (id, m) ← directMember (← arg 0)
    return .member id m
  | .allocateInstance =>
    let (_, m) ← directMember (← arg 0)
    callHost host re (.allocate m.cls) [] (host.allocate m.cls)
  | .linkTo kind _ =>
    match args.getLast? with
    | none => act (Act.violate .memberMissing)
    | some last =>
      let (_, m) ← act (Act.ofError last.asMember)
      let args := args.dropLast
      callHost host re (.member kind m args) args (host.member kind m args)

/-! ## Forms -/

/-- Applies a function. -/
def apply (host : Host σ) (re : Reentry σ) (run : Runner σ) (f : Function Form)
    (args : List Value) : Exec σ Value :=
  match f with
  | .intrinsic op => intrinsic host re run op args
  | .external name _ => callHost host re (.primitive name args) args (host.primitive name args)
  | .form callee => run callee args

/-- Evaluates the remaining expressions of a form. Answers the values of all names. -/
def evaluate (apply : Function Form → List Value → Exec σ Value) (form : Form) :
    List (Name Form) → List Value → Exec σ (List Value)
  | [], values => return values
  | n :: rest, values => do
    consumeFuel
    match n.expr with
    | none => act (Act.violate .outOfBounds)
    | some e =>
      tracing fun t => t.expression form values.length e
      let args ← act (Act.ofViolation (e.args.mapM (operand values)))
      let v ← withFrame ⟨[form], values⟩ (apply e.function args)
      tracing fun t => t.value v
      evaluate apply form rest (values ++ [v])

/-- Starts the lines of a form in the trace, if one is kept. -/
def traceEnter (form : Form) (args : List Value) : Exec σ Unit := do
  let e ← get
  match e.trace with
  | none => return
  | some t =>
    let t ← act (Act.ofViolation (t.enter form args))
    set { e with trace := some t }

/-- Runs a form with its parameters bound to values, while `depth` more forms may run inside each
other. -/
def runForm (host : Host σ) (re : Reentry σ) (depth : Nat) (form : Form) (args : List Value) :
    Exec σ Value := do
  if args.length ≠ form.arity then fail (.arityMismatch form.arity args.length)
  match depth with
  | 0 => fail .recursionLimit
  | depth + 1 =>
    traceEnter form args
    let values ← evaluate (apply host re (runForm host re depth)) form
      (form.names.drop form.arity) args
    let result ← match form.result with
      | none => pure .void
      | some r => act (Act.ofViolation (valueAt values r))
    tracing fun t => t.exit form result
    return result

end Exec

/-! ## Top-level invocations -/

namespace Act

variable {σ α : Type}

/-- Runs a computation with the limits of the world. Answers its outcome, the fuel that is left and
the trace. -/
def execute (trace : Option Trace) (a : Exec σ α) :
    Act σ (Except RuntimeError α × Nat × Option Trace) := fun w =>
  let (r, e) := a ⟨w, w.limits.fuel, trace⟩
  match r with
  | .ok a => (.ok (.ok a, e.fuel, e.trace), e.world)
  | .error (.error err) => (.ok (.error err, e.fuel, e.trace), e.world)
  | .error (.violation v) => (.error (.violation v), e.world)

/-- Runs a form with the limits of the world. -/
def runForm (host : Host σ) (re : Reentry σ) (form : Form) (args : List Value) :
    Act σ (Except RuntimeError Value × Nat × Option Trace) := do
  execute none (Exec.runForm host re (← get).limits.depth form args)

/-- Runs the current form of a handle with the limits of the world. -/
def invokeHandle (host : Host σ) (re : Reentry σ) (trace : Option Trace) (h : Handle)
    (args : List Value) : Act σ (Except RuntimeError Value × Nat × Option Trace) := do
  execute trace (Exec.invokeHandle (Exec.runForm host re (← get).limits.depth) h args)

/-- Invokes a handle at its own type and goes on with a trace. Arguments that do not fit leave the
trace as it is. -/
def invokeTracing (host : Host σ) (re : Reentry σ) (start : Trace) (h : Handle) (args : List Value) :
    Act σ (Except RuntimeError Value × Trace) := do
  match checkArguments h.type args with
  | .error e => return (.error e, start)
  | .ok () =>
    let (result, _, trace) ← invokeHandle host re (some start) h args
    return (result, trace.getD start)

/-- Invokes a handle at its own type and keeps a trace. -/
def invokeTraced (host : Host σ) (re : Reentry σ) (verbosity : Verbosity) (h : Handle)
    (args : List Value) : Act σ (Except RuntimeError Value × Trace) :=
  invokeTracing host re (Trace.empty verbosity) h args

/-- Calls a handle at a call site of a type. -/
def linkAndCall (host : Host σ) (re : Reentry σ) (h : Handle) (type : Signature) (generic : Bool)
    (args : List Value) : Act σ Value := do
  ofError (checkArguments type args)
  let linker ← invokerForm type ⟨generic, true⟩
  ofError (← withFrame ⟨[linker], []⟩
    (runForm host re linker (.handle h :: args ++ [.signature type]))).1

/-- Invokes a handle. -/
def invoke (host : Host σ) (re : Reentry σ) (h : Handle) (site : CallSite) (args : List Value) :
    Act σ Value := do
  match site with
  | .basic =>
    ofError (checkArguments h.type args)
    ofError (← invokeHandle host re none h args).1
  | .exact type => linkAndCall host re h type false args
  | .generic type => linkAndCall host re h type true args

end Act

/-- What host code may ask for while `levels` more levels of host code may run inside each other. -/
def Host.reenter {σ : Type} (host : Host σ) : Nat → Reentry σ
  | 0 => ⟨fun _ _ _ => Act.violate .reentry, fun _ => Act.violate .reentry⟩
  | levels + 1 =>
    ⟨fun h site args => Act.invoke host (host.reenter levels) h site args,
      fun cls => Act.ensure host (host.reenter levels) cls⟩

/-- How many levels of host code may run inside each other. -/
def Host.maxLevels : Nat := 4096

/-- What host code that a client called may ask for. -/
def Host.client {σ : Type} (host : Host σ) : Reentry σ := host.reenter Host.maxLevels

end HandleForms
