import HandleForms.Form.Function
import HandleForms.Violation

/-!
# Members

A member is a method or constructor of a class that a direct handle dispatches to. Its declared type
leaves the receiver out; `Member.handleType` is the type of a direct handle, which takes the
receiver first, or returns the new instance of a constructor.
-/

namespace HandleForms

/-- A method or constructor of a class. -/
structure Member where
  cls : String
  name : String
  /-- The declared type, without the receiver. -/
  type : Signature
  kind : DispatchKind
  deriving DecidableEq

namespace Member

/-- A method of a class; constructors are not methods. -/
def method (cls name : String) (type : Signature) (kind : DispatchKind) : Except Violation Member :=
  if kind = .newSpecial then .error .constructorAsMethod else .ok ⟨cls, name, type, kind⟩

/-- A constructor of a class. -/
def constructor (cls : String) (params : List Ty) : Except SignatureError Member :=
  (Signature.ofTypes .void params).map fun type => ⟨cls, "<init>", type, .newSpecial⟩

def isConstructor (m : Member) : Bool := m.kind == .newSpecial

/-- Whether a call must first make sure that the class is initialized. -/
def needsClass (m : Member) : Bool := m.kind.needsClass

/-- The type of a direct handle to the member. -/
def handleType (m : Member) : Except SignatureError Signature :=
  match m.kind with
  | .static => .ok m.type
  | .newSpecial => .ok (m.type.withRet (.cls m.cls))
  | _ => Signature.ofTypes m.type.ret (.cls m.cls :: m.type.params)

/-- Class, name and declared type. -/
def text (m : Member) : String := m.cls ++ "." ++ m.name ++ m.type.text

/-- A member with its kind of dispatch, as diagnostics show it. -/
def describe (m : Member) : String := m.text ++ "/" ++ m.kind.name

end Member

end HandleForms
