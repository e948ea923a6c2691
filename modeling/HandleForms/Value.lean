import HandleForms.Member
import HandleForms.RuntimeError

/-!
# Values and handles

What flows through forms. Narrow primitives travel as `int`, the way forms see them. Arrays,
handles, members and objects are told apart by their identity; the fields of an object are not part
of the value, they are kept by the world that allocated it.

A handle has a type, a form and the data that the form reads: nothing, the values bound so far, or a
member. `HandleOf` leaves the type of the values open, so that values can contain handles.
-/

namespace HandleForms

/-- What the form of a handle reads from the handle. -/
inductive HandleData (ν : Type) where
  /-- Nothing. -/
  | simple
  /-- The values of a carrier, one for each field of the species. -/
  | bound (species : Species) (values : List ν)
  /-- The member that the handle dispatches to; the identity tells member objects apart. -/
  | direct (memberId : Nat) (member : Member)

/-- A handle over values of type `ν`. -/
structure HandleOf (ν : Type) where
  id : Nat
  type : Signature
  /-- The form that the handle was made with. -/
  form : Form
  data : HandleData ν

/-- What flows through forms. -/
inductive Value where
  /-- What an expression without a value leaves. -/
  | void
  | int (value : Int32)
  | long (value : Int64)
  | float (value : Single)
  | double (value : Double)
  | null
  | str (value : String)
  | array (id : Nat) (element : Ty) (values : List Value)
  | handle (h : HandleOf Value)
  | signature (value : Signature)
  | member (id : Nat) (m : Member)
  | cls (name : String)
  | object (id : Nat) (cls : String)

/-- A typed, invokable unit: a form and the data it reads. -/
abbrev Handle := HandleOf Value

instance : Inhabited Value := ⟨.void⟩

namespace HandleOf

variable {ν : Type}

/-- The species of a carrier. -/
def species? (h : HandleOf ν) : Option Species :=
  match h.data with
  | .bound species _ => some species
  | _ => none

/-- What the form of a handle reads from the handle, in a word. -/
def dataSort (h : HandleOf ν) : String :=
  match h.data with
  | .simple => "simple"
  | .bound _ _ => "bound"
  | .direct _ _ => "direct"

/-- The values bound so far. -/
def bound (h : HandleOf ν) : List ν :=
  match h.data with
  | .bound _ values => values
  | _ => []

/-- The member of a direct handle, with its identity. -/
def member? (h : HandleOf ν) : Option (Nat × Member) :=
  match h.data with
  | .direct id member => some (id, member)
  | _ => none

end HandleOf

namespace Value

/-- The basic type of a value. -/
def basicType : Value → BasicType
  | void => .void
  | int _ => .int
  | long _ => .long
  | float _ => .float
  | double _ => .double
  | _ => .ref

/-- The default of a basic type: zero, or `null` for references. -/
def zero : BasicType → Value
  | .ref => null
  | .int => int 0
  | .long => long 0
  | .float => float (Binary.zero _)
  | .double => double (Binary.zero _)
  | .void => void

@[simp] theorem basicType_zero (t : BasicType) : (zero t).basicType = t := by
  cases t <;> rfl

/-- The value of a constant. -/
def ofConstant : Constant → Value
  | .null => null
  | .int v => int v
  | .long v => long v
  | .float v => float v
  | .double v => double v
  | .str s => str s
  | .signature s => signature s
  | .cls name => cls name

@[simp] theorem basicType_ofConstant (c : Constant) : (ofConstant c).basicType = c.basicType := by
  cases c <;> rfl

/-- The sort of a value, as error texts name it. -/
def sort : Value → String
  | void => "void"
  | int _ => "int"
  | long _ => "long"
  | float _ => "float"
  | double _ => "double"
  | null => "null"
  | str _ => "string"
  | array _ _ _ => "array"
  | handle _ => "method handle"
  | signature _ => "method type"
  | member _ _ => "member"
  | cls _ => "class"
  | object _ _ => "object"

def isNull : Value → Bool
  | null => true
  | _ => false

/-- Whether two values are equal: numbers as numbers compare, strings, types and classes by content,
other references by identity. -/
def same : Value → Value → Bool
  | void, void => true
  | null, null => true
  | int a, int b => a == b
  | long a, long b => a == b
  | float a, float b => a.same b
  | double a, double b => a.same b
  | str a, str b => a == b
  | signature a, signature b => a == b
  | cls a, cls b => a == b
  | array a _ _, array b _ _ => a == b
  | handle a, handle b => a.id == b.id
  | member a _, member b _ => a == b
  | object a _, object b _ => a == b
  | _, _ => false

mutual

/-- A value as it is shown. Objects show their class and nothing that tells them apart. -/
def text : Value → String
  | void => "void"
  | int v => toString v.toInt
  | long v => toString v.toInt ++ "L"
  | float v => Decimal.text Decimal.numberLayout v ++ "F"
  | double v => Decimal.text Decimal.numberLayout v ++ "D"
  | null => "null"
  | str s => Text.quoted s
  | array _ element values => element.text ++ "[" ++ listText values ++ "]"
  | handle h => "MethodHandle" ++ h.type.text
  | signature s => s.text
  | member _ m => m.text
  | cls name => name ++ ".class"
  | object _ owner => owner ++ "@obj"

/-- Values between commas. -/
def listText : List Value → String
  | [] => ""
  | [v] => v.text
  | v :: vs => v.text ++ ", " ++ listText vs

end

/-! ## Views of values

Each view answers the content of a value of its sort. `null` is an error of its own, which names the
view. -/

/-- The error of a view that does not fit. -/
def castError (expected : String) (v : Value) : RuntimeError :=
  if v.isNull then .nullPointer expected else .classCast expected v.sort

def asInt : Value → Except RuntimeError Int32
  | int v => .ok v
  | v => .error (castError "int" v)

def asLong : Value → Except RuntimeError Int64
  | long v => .ok v
  | v => .error (castError "long" v)

def asStr : Value → Except RuntimeError String
  | str s => .ok s
  | v => .error (castError "string" v)

def asSignature : Value → Except RuntimeError Signature
  | signature s => .ok s
  | v => .error (castError "method type" v)

def asHandle : Value → Except RuntimeError Handle
  | handle h => .ok h
  | v => .error (castError "method handle" v)

/-- The member and its identity. -/
def asMember : Value → Except RuntimeError (Nat × Member)
  | member id m => .ok (id, m)
  | v => .error (castError "member" v)

/-- The identity of the object and its class. -/
def asObject : Value → Except RuntimeError (Nat × String)
  | object id owner => .ok (id, owner)
  | v => .error (castError "object" v)

/-- Element `index` of an array. -/
def element (values : List Value) (index : Int) : Except RuntimeError Value :=
  match if index < 0 then none else values[index.toNat]? with
  | some v => .ok v
  | none => .error (.indexOutOfBounds index values.length)

end Value

/-- How a value is made: it is there already, or it is a new array or a new object every time. -/
inductive Blueprint where
  | given (value : Value)
  | array (element : Ty) (items : List Blueprint)
  | object (cls : String)

end HandleForms
