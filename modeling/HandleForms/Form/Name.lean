import HandleForms.Form.Function

/-!
# Names

A form is a list of names, each assigned once. A parameter has a basic type and perhaps a species,
when it is known to be a carrier; an expression name has the type of the function it applies.
Operands refer to earlier names by number, or are constants.
-/

namespace HandleForms

/-- The number of a name, which has 32 bits: of a larger one only the low bits count. -/
def nameNumber (n : Nat) : Nat := n % UInt32.size

theorem nameNumber_of_lt {n : Nat} (h : n < UInt32.size) : nameNumber n = n := Nat.mod_eq_of_lt h

/-- An operand: an earlier name, by number, or a constant. -/
inductive Arg where
  | name (index : Nat)
  | const (value : Constant)
  deriving DecidableEq

namespace Arg

/-- The operand that refers to name `n`. -/
def named (n : Nat) : Arg := .name (nameNumber n)

/-- A constant of type `int`. -/
def int (n : Nat) : Arg := .const (.int (Int32.ofNat n))

/-- The name an operand refers to. -/
def name? : Arg → Option Nat
  | name index => some index
  | const _ => none

/-- Whether two operands are the same. -/
def same : Arg → Arg → Bool
  | name i, name j => i == j
  | const a, const b => a.same b
  | _, _ => false

/-- Passes the name an operand refers to through `f`. -/
def map (f : Nat → Nat) : Arg → Arg
  | name index => .name (f index)
  | const value => .const value

@[simp] theorem map_id (a : Arg) : a.map (fun i => i) = a := by
  cases a <;> rfl

@[simp] theorem map_map (f g : Nat → Nat) (a : Arg) :
    (a.map f).map g = a.map (fun i => g (f i)) := by
  cases a <;> rfl

end Arg

/-- Whether two operand lists are the same. -/
def sameArgs : List Arg → List Arg → Bool
  | [], [] => true
  | a :: as, b :: bs => a.same b && sameArgs as bs
  | _, _ => false

/-- A function applied to operands. -/
structure Expr (φ : Type) where
  function : Function φ
  args : List Arg

/-- A typed slot of a form; parameters have no expression. -/
structure Name (φ : Type) where
  type : BasicType
  /-- The species of a parameter that is a carrier. -/
  species : Option Species
  expr : Option (Expr φ)

namespace Name

variable {φ : Type}

instance : Inhabited (Name φ) := ⟨⟨.void, none, none⟩⟩

/-- A parameter. -/
def param (type : BasicType) : Name φ := ⟨type, none, none⟩

/-- A reference parameter that carries the fields of a species. -/
def carrier (species : Species) : Name φ := ⟨.ref, some species, none⟩

/-- An expression. -/
def apply [FormLike φ] (function : Function φ) (args : List Arg) : Name φ :=
  ⟨function.ret, none, some ⟨function, args⟩⟩

def isParam (n : Name φ) : Bool := n.expr.isNone

/-- The function of an expression. -/
def function? (n : Name φ) : Option (Function φ) := n.expr.map Expr.function

/-- The operands; a parameter has none. -/
def args (n : Name φ) : List Arg := (n.expr.map Expr.args).getD []

/-- The names that the operands of a name refer to. -/
def operands (n : Name φ) : List Nat := n.args.filterMap Arg.name?

/-- Whether some operand is the name `index`. -/
def refersTo (n : Name φ) (index : Nat) : Bool := n.args.any fun a => a.name? == some index

/-- The same name with every operand passed through `f`. -/
def mapArgs (f : Nat → Nat) (n : Name φ) : Name φ :=
  { n with expr := n.expr.map fun e => { e with args := e.args.map (Arg.map f) } }

/-- Whether `f` changes some operand. -/
def movedBy (f : Nat → Nat) (n : Name φ) : Bool :=
  n.args.any fun
    | .name index => f index != index
    | .const _ => false

@[simp] theorem type_mapArgs (f : Nat → Nat) (n : Name φ) : (n.mapArgs f).type = n.type := rfl

@[simp] theorem isParam_mapArgs (f : Nat → Nat) (n : Name φ) :
    (n.mapArgs f).isParam = n.isParam := by
  cases n with | mk t s e => cases e <;> rfl

@[simp] theorem args_mapArgs (f : Nat → Nat) (n : Name φ) :
    (n.mapArgs f).args = n.args.map (Arg.map f) := by
  cases n with | mk t s e => cases e <;> rfl

/-- Whether two names are the same. -/
def same [FormLike φ] (m n : Name φ) : Bool :=
  m.type == n.type && m.species == n.species &&
    match m.expr, n.expr with
    | none, none => true
    | some d, some e => d.function.same e.function && sameArgs d.args e.args
    | _, _ => false

end Name

end HandleForms
