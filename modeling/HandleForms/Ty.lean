import HandleForms.BasicType

/-!
# Language types

What a handle's signature says: primitives, class names and arrays. Each type maps onto exactly one
basic type. Erasure (`Ty.erase`) folds every reference type to `Object`; the basic form of a type
(`Ty.basic`) also folds the narrow primitives to `int`.
-/

namespace HandleForms

/-- A parameter or return type as a signature writes it. -/
inductive Ty where
  | void
  | boolean
  | byte
  | short
  | char
  | int
  | long
  | float
  | double
  /-- A class, by its name. -/
  | cls (name : String)
  | array (element : Ty)
  deriving DecidableEq, Repr, Inhabited

namespace Ty

/-- The class every reference erases to. -/
def objectName : String := "Object"

/-- The type `Object`. -/
def object : Ty := cls objectName

def isVoid : Ty → Bool
  | void => true
  | _ => false

def isReference : Ty → Bool
  | cls _ | array _ => true
  | _ => false

/-- Everything that is not a reference, `void` included. -/
def isPrimitive (t : Ty) : Bool := !t.isReference

def isObject : Ty → Bool
  | cls name => name == objectName
  | _ => false

/-- The primitives narrower than `int`. -/
def isSubword : Ty → Bool
  | boolean | byte | short | char => true
  | _ => false

def isDoubleWidth : Ty → Bool
  | long | double => true
  | _ => false

/-- The basic type that carries values of this type. -/
def basicType : Ty → BasicType
  | void => .void
  | boolean | byte | short | char | int => .int
  | long => .long
  | float => .float
  | double => .double
  | cls _ | array _ => .ref

/-- Folds every reference type to `Object`. -/
def erase (t : Ty) : Ty := if t.isReference then object else t

/-- The element type of an array type. -/
def component? : Ty → Option Ty
  | array element => some element
  | _ => none

/-- The descriptor letter; every reference has the letter `L`. -/
def descriptorLetter : Ty → Char
  | void => 'V'
  | boolean => 'Z'
  | byte => 'B'
  | short => 'S'
  | char => 'C'
  | int => 'I'
  | long => 'J'
  | float => 'F'
  | double => 'D'
  | cls _ | array _ => 'L'

end Ty

/-- The language type that stands for a basic type. -/
def BasicType.ty : BasicType → Ty
  | .ref => Ty.object
  | .int => .int
  | .long => .long
  | .float => .float
  | .double => .double
  | .void => .void

/-- Erases, then folds the narrow primitives to `int`. -/
def Ty.basic (t : Ty) : Ty := t.basicType.ty

@[simp] theorem BasicType.basicType_ty (t : BasicType) : t.ty.basicType = t := by
  cases t <;> rfl

namespace Ty

@[simp] theorem basicType_basic (t : Ty) : t.basic.basicType = t.basicType := by
  simp [basic]

@[simp] theorem basicType_erase (t : Ty) : t.erase.basicType = t.basicType := by
  cases t <;> rfl

theorem basicType_eq_void_iff (t : Ty) : t.basicType = .void ↔ t = .void := by
  cases t <;> simp [basicType]

@[simp] theorem basic_basic (t : Ty) : t.basic.basic = t.basic := by
  simp [basic]

@[simp] theorem erase_erase (t : Ty) : t.erase.erase = t.erase := by
  cases t <;> rfl

@[simp] theorem basic_erase (t : Ty) : t.erase.basic = t.basic := by
  simp [basic]

@[simp] theorem erase_basic (t : Ty) : t.basic.erase = t.basic := by
  cases t <;> rfl

theorem basic_eq_void_iff (t : Ty) : t.basic = .void ↔ t = .void := by
  cases t <;> simp [basic, basicType, BasicType.ty, object]

theorem erase_eq_void_iff (t : Ty) : t.erase = .void ↔ t = .void := by
  cases t <;> simp [erase, isReference, object]

end Ty

end HandleForms
