import HandleForms.World

/-!
# Making handles

Handles of primitives, empty handles, direct handles and invokers. Forms that depend on nothing but
a basic type are kept in the slots of its type form and shared; `Act.rebind` wraps a handle so that
values can be bound to it.
-/

namespace HandleForms

/-- The slot that keeps the forms of a shape. -/
def InvokerShape.purpose : InvokerShape → FormPurpose
  | ⟨false, true⟩ => .exactLinker
  | ⟨false, false⟩ => .exactInvoker
  | ⟨true, true⟩ => .genericLinker
  | ⟨true, false⟩ => .genericInvoker

/-- The slot that keeps direct forms; `barrier` says whether they pass the class barrier first. -/
def DispatchKind.purpose : DispatchKind → Bool → FormPurpose
  | .virtual, _ => .invokeVirtual
  | .static, false => .invokeStatic
  | .static, true => .invokeStaticInit
  | .special, _ => .invokeSpecial
  | .interface, _ => .invokeInterface
  | .newSpecial, false => .newInvokeSpecial
  | .newSpecial, true => .newInvokeSpecialInit

/-- The handle in a slot, if that is what the slot holds. -/
def Kept.handle? : Kept → Option Handle
  | .handle h => some h
  | .invokers _ => none

namespace Act

variable {σ : Type}

/-- Refuses a type with more slots than `limit`. -/
def checkSlots (type : Signature) (limit : Nat) : Act σ Unit :=
  if limit < type.slots then fail (.signature (.tooManySlots type.slots limit)) else return

/-- A new handle. -/
def newHandle (type : Signature) (form : Form) (data : HandleData Value) : Act σ Handle := do
  return ⟨← freshId, type, form, data⟩

/-- A new handle with the data of another one. -/
def copyWith (h : Handle) (type : Signature) (form : Form) : Act σ Handle :=
  newHandle type form h.data

/-- A new form. -/
def newForm (build : Nat → Except Violation Form) : Act σ Form := do
  let id ← context fun _ c => c.freshForm
  ofViolation (build id)

/-- The species with these fields. -/
def species (fields : List BasicType) : Act σ Species := context fun _ c => c.internSpecies fields

/-- The type form of a signature. -/
def typeForm (type : Signature) : Act σ TypeForm := context fun _ c => c.typeForm type

/-- The form in a slot of a type form, which is built when there is none. -/
def sharedForm (t : TypeForm) (p : FormPurpose) (build : Act σ Form) : Act σ Form := do
  match ← context fun live c => c.cachedForm live t p with
  | some f => return f
  | none =>
    let f ← build
    context fun live c => c.setCachedForm live t p f

/-- The handle in a slot of a type form. -/
def sharedHandle? (t : TypeForm) (p : HandlePurpose) : Act σ (Option Handle) :=
  context fun live c => c.cachedHandle live Kept.handle? t p

/-- Puts a handle into a slot, and answers the one that is there afterwards. -/
def shareHandle (t : TypeForm) (p : HandlePurpose) (h : Handle) : Act σ Handle := do
  let shared ← context fun live c => c.setCachedHandle live Kept.handle? .handle t p h
  ofError (shared.mapError .form)

/-- Views a handle at a type with the same basic type. -/
def asType (h : Handle) (type : Signature) : Act σ Handle := do
  if h.type = type then return h
  else if h.type.basic ≠ type.basic then fail (.wrongType type h.type)
  else copyWith h type ((← get).currentForm h)

/-- A handle that calls a host primitive. -/
def external (name : String) (type : Signature) : Act σ Handle := do
  checkSlots type Signature.maxHandleSlots
  let form ← newForm (Form.external name type)
  context fun _ c => ((), c.retainForm form)
  newHandle type form .simple

/-- A handle that answers the zero of its result type. -/
def empty (type : Signature) : Act σ Handle := do
  checkSlots type Signature.maxHandleSlots
  let t ← typeForm type.basic
  match ← sharedHandle? t .empty with
  | some h => asType h type
  | none =>
    let form ← sharedForm t .empty (newForm (Form.empty type.basic))
    let h ← newHandle type.basic form .simple
    asType (← shareHandle t .empty h) type

/-- The handle as a carrier. A handle that carries nothing is wrapped in a carrier that calls it. -/
def rebind (h : Handle) : Act σ Handle := do
  if h.species?.isSome then return h
  let basic := h.type.basic
  let t ← typeForm basic
  let form ← sharedForm t .boundReinvoker do
    let s ← species [.ref]
    newForm (Form.reinvoker s basic)
  newHandle h.type form (.bound (← species [.ref]) [.handle h])

/-! ## Direct handles -/

/-- The form that the direct handles of a basic type and a kind share. Only static methods and
constructors have one with a barrier. The linker call takes the member, and that of a constructor
the new instance too. -/
def directForm (type : Signature) (kind : DispatchKind) (barrier : Bool) : Act σ Form := do
  let barrier := barrier && kind.needsClass
  checkSlots type (Signature.maxHandleSlots - if kind = .newSpecial then 1 else 0)
  let t ← typeForm type
  sharedForm t (kind.purpose barrier) (newForm (Form.direct type.basic kind barrier))

/-- A handle that dispatches to a member. While the class is not initialized its form passes the
class barrier. -/
def direct (host : Host σ) (m : Member) : Act σ Handle := do
  let type ← ofSignature m.handleType
  let barrier := m.needsClass && !host.isInitialized (← get).host m.cls
  let form ← directForm type m.kind barrier
  newHandle type form (.direct (← freshId) m)

/-! ## Invokers -/

/-- The form that calls a target at a checked type. -/
def invokerForm (type : Signature) (shape : InvokerShape) : Act σ Form := do
  checkSlots type Signature.maxInvokerSlots
  let t ← typeForm type
  sharedForm t shape.purpose do
    if shape.linker then newForm (Form.linker shape.generic type.basic)
    else
      let s ← species [.ref]
      newForm (Form.invoker shape.generic s type.basic)

/-- The invokers of a type, which are kept alive from now on. -/
def invokers (type : Signature) : Act σ Invokers := do
  let id ← freshId
  let w ← get
  let (i, table) := w.invokers.request (fun i => w.context.handleRetainer.holds i.id) type id
  set { w with invokers := table, context := w.context.retainHandle (.invokers i) }
  return i

/-- A handle that calls its first argument at a checked type. -/
def invoker (type : Signature) (generic : Bool) : Act σ Handle := do
  let i ← invokers type
  match (← get).invokers.handle? i generic with
  | some h => return h
  | none =>
    let invokerType ← ofSignature type.invoker
    let form ← invokerForm type ⟨generic, false⟩
    let h ← newHandle invokerType form (.bound (← species [.ref]) [.signature type])
    modify fun w => { w with invokers := w.invokers.setHandle i generic h }
    return h

/-- The form that the call sites of a type link to. The invokers of the type are kept alive. -/
def linkerForm (type : Signature) (generic : Bool) : Act σ Form := do
  let _ ← invokers type
  invokerForm type ⟨generic, true⟩

/-- A handle of the basic type that calls its first argument without a check. -/
def basicInvoker (type : Signature) : Act σ Handle := do
  let _ ← invokers type
  let basic := type.basic
  let t ← typeForm basic
  match ← sharedHandle? t .basicInvoker with
  | some h => return h
  | none =>
    let invokerType ← ofSignature basic.invoker
    let form ← sharedForm t .basicInvoker (newForm (Form.basicInvoker basic))
    shareHandle t .basicInvoker (← newHandle invokerType form .simple)

end Act

end HandleForms
