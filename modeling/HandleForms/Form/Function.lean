import HandleForms.Form.Constant
import HandleForms.Species

/-!
# Functions

What an expression of a form applies: an intrinsic operation, a host primitive found by its name at
call time, or another form. The type of forms is a parameter here, and enters through `FormLike`:
of a nested form only its identity, its parameter and result types and its kind matter.
-/

namespace HandleForms

/-- How a linker call dispatches to its member. -/
inductive DispatchKind where
  | virtual
  | static
  | special
  | interface
  /-- A constructor body, run on a freshly allocated instance. -/
  | newSpecial
  deriving DecidableEq, Repr, Inhabited

namespace DispatchKind

/-- The name of the linker call. -/
def linkerName : DispatchKind → String
  | virtual => "linkToVirtual"
  | static => "linkToStatic"
  | special => "linkToSpecial"
  | interface => "linkToInterface"
  | newSpecial => "linkToSpecial"

/-- The name of the kind. -/
def name : DispatchKind → String
  | virtual => "Virtual"
  | static => "Static"
  | special => "Special"
  | interface => "Interface"
  | newSpecial => "NewSpecial"

/-- Whether the member takes its receiver as first argument. -/
def hasReceiver : DispatchKind → Bool
  | static => false
  | _ => true

/-- Whether a call must first make sure that the class of the member is initialized. -/
def needsClass : DispatchKind → Bool
  | static | newSpecial => true
  | _ => false

end DispatchKind

/-- What a form was built for; derived forms are `generic`. -/
inductive FormKind where
  | generic
  | external
  | empty
  | boundReinvoker
  | basicInvoker
  | exactLinker
  | exactInvoker
  | genericLinker
  | genericInvoker
  | directInvokeVirtual
  | directInvokeStatic
  | directInvokeStaticInit
  | directInvokeSpecial
  | directInvokeInterface
  | directNewInvokeSpecial
  | directNewInvokeSpecialInit
  deriving DecidableEq, Repr, Inhabited

namespace FormKind

/-- All kinds. -/
def all : List FormKind :=
  [generic, external, empty, boundReinvoker, basicInvoker, exactLinker, exactInvoker, genericLinker,
    genericInvoker, directInvokeVirtual, directInvokeStatic, directInvokeStaticInit,
    directInvokeSpecial, directInvokeInterface, directNewInvokeSpecial, directNewInvokeSpecialInit]

/-- The name of a kind. -/
def name : FormKind → String
  | generic => "Generic"
  | external => "External"
  | empty => "Empty"
  | boundReinvoker => "BoundReinvoker"
  | basicInvoker => "BasicInvoker"
  | exactLinker => "ExactLinker"
  | exactInvoker => "ExactInvoker"
  | genericLinker => "GenericLinker"
  | genericInvoker => "GenericInvoker"
  | directInvokeVirtual => "DirectInvokeVirtual"
  | directInvokeStatic => "DirectInvokeStatic"
  | directInvokeStaticInit => "DirectInvokeStaticInit"
  | directInvokeSpecial => "DirectInvokeSpecial"
  | directInvokeInterface => "DirectInvokeInterface"
  | directNewInvokeSpecial => "DirectNewInvokeSpecial"
  | directNewInvokeSpecialInit => "DirectNewInvokeSpecialInit"

/-- The kind with this name. -/
def ofName? (s : String) : Option FormKind := all.find? fun k => k.name == s

/-- Whether a form of this kind passes the class barrier first. -/
def hasBarrier : FormKind → Bool
  | directInvokeStaticInit | directNewInvokeSpecialInit => true
  | _ => false

end FormKind

/-- An operation that the interpreter performs itself. -/
inductive Intrinsic where
  /-- Call the handle in operand 0 with the other operands; `callee` is its basic type. -/
  | invokeBasic (callee : Signature)
  /-- Read field `index` of a carrier of `species`. -/
  | boundField (species : Species) (index : Nat)
  /-- Fail unless the array in operand 0 has exactly operand 1 elements. -/
  | checkSpreadLength
  /-- Load element operand 1 of the array in operand 0; `element` is its erased element type. -/
  | arrayLoad (element : Ty)
  | zero (type : BasicType)
  | identity (type : BasicType)
  /-- Fail unless the type of the handle is the type token. -/
  | checkExactType
  /-- View the handle at the type token. -/
  | checkGenericType
  /-- Pass the class barrier of a direct handle. -/
  | ensureInitialized
  /-- The member of a direct handle. -/
  | internalMemberName
  /-- Allocate an instance of the class of a constructor handle. -/
  | allocateInstance
  /-- The constructor of a constructor handle. -/
  | constructorMember
  /-- Dispatch to the member in the last operand; `type` is the basic type of the whole call. -/
  | linkTo (kind : DispatchKind) (type : Signature)

namespace Intrinsic

/-- The basic types of the operands. -/
def params : Intrinsic → List BasicType
  | invokeBasic callee => .ref :: callee.basicParams
  | boundField _ _ => [.ref]
  | checkSpreadLength | arrayLoad _ => [.ref, .int]
  | zero _ => []
  | identity type => [type]
  | checkExactType | checkGenericType => [.ref, .ref]
  | ensureInitialized | internalMemberName | allocateInstance | constructorMember => [.ref]
  | linkTo _ type => type.basicParams

/-- The basic type of the result. A field that the species does not have reads as nothing. -/
def ret : Intrinsic → BasicType
  | invokeBasic callee => callee.basicRet
  | boundField species index => species.fields[index]?.getD .void
  | checkSpreadLength | checkExactType | ensureInitialized => .void
  | arrayLoad element => element.basicType
  | zero type | identity type => type
  | checkGenericType | internalMemberName | allocateInstance | constructorMember => .ref
  | linkTo _ type => type.basicRet

/-- Whether two intrinsics are the same operation. -/
def same : Intrinsic → Intrinsic → Bool
  | invokeBasic a, invokeBasic b => a == b
  | boundField s i, boundField t j => s == t && i == j
  | checkSpreadLength, checkSpreadLength => true
  | arrayLoad a, arrayLoad b => a == b
  | zero a, zero b => a == b
  | identity a, identity b => a == b
  | checkExactType, checkExactType => true
  | checkGenericType, checkGenericType => true
  | ensureInitialized, ensureInitialized => true
  | internalMemberName, internalMemberName => true
  | allocateInstance, allocateInstance => true
  | constructorMember, constructorMember => true
  | linkTo k a, linkTo l b => k == l && a == b
  | _, _ => false

/-- An intrinsic as dumps write it. -/
def text : Intrinsic → String
  | invokeBasic callee => "InvokeBasic[" ++ callee.shorthand ++ "]"
  | boundField species index => "BoundField[" ++ species.key ++ "." ++ Text.decimal index ++ "]"
  | checkSpreadLength => "CheckSpreadLength"
  | arrayLoad element => "ArrayLoad[" ++ element.text ++ "]"
  | zero type => "Zero[" ++ String.singleton type.letter ++ "]"
  | identity type => "Identity[" ++ String.singleton type.letter ++ "]"
  | checkExactType => "CheckExactType"
  | checkGenericType => "CheckGenericType"
  | ensureInitialized => "EnsureInitialized"
  | internalMemberName => "InternalMemberName"
  | allocateInstance => "AllocateInstance"
  | constructorMember => "ConstructorMember"
  | linkTo kind type => kind.linkerName ++ "[" ++ type.shorthand ++ "]"

/-- The intrinsics that nothing but their name tells apart. -/
def plain : List Intrinsic :=
  [checkSpreadLength, checkExactType, checkGenericType, ensureInitialized, internalMemberName,
    allocateInstance, constructorMember]

/-- The intrinsic of a name that needs nothing else. -/
def ofName? (name : String) : Option Intrinsic := plain.find? fun op => op.text == name

end Intrinsic

/-- What a function needs to know of a nested form. -/
class FormLike (φ : Type) where
  identity : φ → Nat
  params : φ → List BasicType
  ret : φ → BasicType
  kind : φ → FormKind

/-- The callee of an expression. -/
inductive Function (φ : Type) where
  | intrinsic (op : Intrinsic)
  /-- A host primitive; `type` is basic. -/
  | external (name : String) (type : Signature)
  /-- Another form, run in place. -/
  | form (callee : φ)

namespace Function

variable {φ : Type}

/-- The call of a handle of type `callee`. -/
def invokeBasic (callee : Signature) : Function φ := .intrinsic (.invokeBasic callee.basic)

/-- The host primitive `name`, called at the basic type of `type`. -/
def primitive (name : String) (type : Signature) : Function φ := .external name type.basic

/-- Reads field `index` of a carrier. -/
def getter (species : Species) (index : Nat) : Function φ := .intrinsic (.boundField species index)

/-- Reads of every field of a carrier, in order. -/
def getters (species : Species) : List (Function φ) :=
  (List.range species.fields.length).map (getter species)

variable [FormLike φ]

/-- The basic types of the operands. -/
def params : Function φ → List BasicType
  | intrinsic op => op.params
  | external _ type => type.basicParams
  | form callee => FormLike.params callee

/-- The basic type of the result. -/
def ret : Function φ → BasicType
  | intrinsic op => op.ret
  | external _ type => type.basicRet
  | form callee => FormLike.ret callee

/-- Whether two functions are the same; forms are told apart by their identity. -/
def same : Function φ → Function φ → Bool
  | intrinsic a, intrinsic b => a.same b
  | external n a, external m b => n == m && a == b
  | form f, form g => FormLike.identity f == FormLike.identity g
  | _, _ => false

/-- A function as dumps write it. -/
def text : Function φ → String
  | intrinsic op => op.text
  | external name _ => name
  | form callee => "Form[" ++ (FormLike.kind callee).name ++ "]"

end Function

end HandleForms
