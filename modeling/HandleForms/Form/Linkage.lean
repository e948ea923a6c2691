import HandleForms.Form.Parts

/-!
# Linkage forms

The forms that handles are made with before any edit. Parameter 0 is the handle itself, and the
arguments of the handle's type follow it; linker forms of call sites have no handle of their own,
they take the target first and the type that the call site asks for last.
-/

namespace HandleForms

/-- The shapes of the forms that call a target at a checked type. -/
structure InvokerShape where
  /-- Whether a target of another type with the same basic type is viewed at the type. -/
  generic : Bool
  /-- Whether the type comes as the last argument; otherwise it is bound in a carrier. -/
  linker : Bool
  deriving DecidableEq, Repr

/-- The kind of forms of a shape. -/
def InvokerShape.kind : InvokerShape → FormKind
  | ⟨false, true⟩ => .exactLinker
  | ⟨false, false⟩ => .exactInvoker
  | ⟨true, true⟩ => .genericLinker
  | ⟨true, false⟩ => .genericInvoker

namespace DispatchKind

/-- The kind of direct forms; `barrier` says whether they pass the class barrier first. -/
def formKind : DispatchKind → Bool → FormKind
  | virtual, _ => .directInvokeVirtual
  | static, false => .directInvokeStatic
  | static, true => .directInvokeStaticInit
  | special, _ => .directInvokeSpecial
  | interface, _ => .directInvokeInterface
  | newSpecial, false => .directNewInvokeSpecial
  | newSpecial, true => .directNewInvokeSpecialInit

end DispatchKind

namespace Form

/-- Calls the host primitive `name` with the arguments. -/
def external (name : String) (type : Signature) (id : Nat) : Except Violation Form :=
  let params := paramNames (.ref :: type.basicParams)
  ofParts id params [.apply (.primitive name type) (argRange 1 params.length)]
    (some params.length) .external

/-- Ignores the arguments and answers the zero of the result type. -/
def empty (basic : Signature) (id : Nat) : Except Violation Form :=
  let params := paramNames (.ref :: basic.basicParams)
  if basic.basicRet = .void then ofParts id params [] none .empty
  else ofParts id params [.apply (.intrinsic (.zero basic.basicRet)) []] (some params.length) .empty

/-- Calls the handle that is the one field of the carrier with the arguments. -/
def reinvoker (species : Species) (basic : Signature) (id : Nat) : Except Violation Form := do
  let params := .carrier species :: paramNames basic.basicParams
  let target := params.length
  ofParts id params
    [.apply (← species.getter 0) [.name 0],
      .apply (.invokeBasic basic) (.name target :: argRange 1 target)]
    (some (target + 1)) .boundReinvoker

/-- Calls the first argument, without any check, with the others. -/
def basicInvoker (basic : Signature) (id : Nat) : Except Violation Form :=
  let params := paramNames (.ref :: .ref :: basic.basicParams)
  ofParts id params [.apply (.invokeBasic basic) (argRange 1 params.length)]
    (some params.length) .basicInvoker

/-- The expressions that check the target against the type token, or view it at that type, and call
it with the names from `firstArg` up to `argEnd`. The check is name `next`. -/
def checkedCall (generic : Bool) (basic : Signature) (target firstArg argEnd token next : Nat) :
    List (Name Form) :=
  let operands := [.name target, .name token]
  let args := argRange firstArg argEnd
  if generic then
    [.apply (.intrinsic .checkGenericType) operands,
      .apply (.invokeBasic basic) (.name next :: args)]
  else
    [.apply (.intrinsic .checkExactType) operands,
      .apply (.invokeBasic basic) (.name target :: args)]

/-- Calls the first argument, checked against the last one, with the arguments between them. -/
def linker (generic : Bool) (basic : Signature) (id : Nat) : Except Violation Form :=
  let params := paramNames (.ref :: basic.basicParams ++ [.ref])
  let token := params.length - 1
  ofParts id params (checkedCall generic basic 0 1 token token params.length)
    (some (params.length + 1)) (InvokerShape.kind ⟨generic, true⟩)

/-- Calls the first argument, checked against the one field of the carrier, with the others. -/
def invoker (generic : Bool) (species : Species) (basic : Signature) (id : Nat) :
    Except Violation Form := do
  let params := .carrier species :: paramNames (.ref :: basic.basicParams)
  let token := params.length
  ofParts id params
    (.apply (← species.getter 0) [.name 0] ::
      checkedCall generic basic 1 2 params.length token (token + 1))
    (some (token + 2)) (InvokerShape.kind ⟨generic, false⟩)

/-- The basic type of the linker call of a direct form: constructors take the new instance first,
and the member comes last. -/
def linkType (basic : Signature) (kind : DispatchKind) : Except Violation Signature :=
  let (ret, receiver) :=
    if kind = .newSpecial then (.void, [.ref]) else (basic.basicRet, [])
  match Signature.ofBasic ret (receiver ++ basic.basicParams ++ [.ref]) with
  | .ok s => .ok s
  | .error e => .error (.noSignature e)

/-- Dispatches to the member of a direct handle. A constructor allocates an instance first, runs on
it and answers it. -/
def direct (basic : Signature) (kind : DispatchKind) (barrier : Bool) (id : Nat) :
    Except Violation Form := do
  let params := paramNames (.ref :: basic.basicParams)
  let isConstructor := kind == .newSpecial
  let checks : List (Name Form) :=
    if barrier then [.apply (.intrinsic .ensureInitialized) [.name 0]] else []
  let instances : List (Name Form) :=
    if isConstructor then [.apply (.intrinsic .allocateInstance) [.name 0]] else []
  let newObject := params.length + checks.length
  let member := newObject + instances.length
  let receiver := if isConstructor then [.name newObject] else []
  ofParts id params
    (checks ++ instances ++
      [.apply (.intrinsic (if isConstructor then .constructorMember else .internalMemberName))
          [.name 0],
        .apply (.intrinsic (.linkTo kind (← linkType basic kind)))
          (receiver ++ argRange 1 params.length ++ [.name member])])
    (some (if isConstructor then newObject else member + 1)) (kind.formKind barrier)

end Form

end HandleForms
