import HandleForms.Form.Dump

/-!
# Well-formed forms

`Form.defect?` looks for the first violation of the invariants of forms and `Form.WellFormed` states
them without an order of search: parameters come first and only they, only reference parameters are
carriers, operands refer to strictly earlier names and fit the function, and the result names a
name.
-/

namespace HandleForms

/-- A violation of the invariants of forms. -/
inductive Form.Defect where
  /-- The arity is larger than the number of names. -/
  | arity (arity names : Nat)
  /-- The parameters need more slots than there are. -/
  | slots (slots : Nat)
  /-- A name is a parameter past the arity or an expression inside it. -/
  | misplaced (index : Nat) (isParam : Bool)
  /-- A name that is no reference parameter has a species. -/
  | species (index : Nat)
  /-- An expression passes `found` operands to a function that takes `expected`. -/
  | operandCount (index found : Nat) (function : String) (expected : Nat)
  /-- Operand `operand` of an expression refers to itself or to a later name. -/
  | forward (index operand target : Nat)
  /-- Operand `operand` of an expression has another basic type than the function takes. -/
  | operandType (index operand : Nat) (found : BasicType) (function : String)
      (expected : BasicType)
  /-- The result is no name. -/
  | result (index : Nat)
  deriving DecidableEq, Repr

namespace Form

/-- A defect of `f` in words. -/
def Defect.text (f : Form) : Defect → String
  | arity a n => "arity " ++ Text.decimal a ++ " exceeds " ++ Text.decimal n ++ " names"
  | slots n => Text.decimal n ++ " parameter slots"
  | misplaced i isParam =>
    f.label i ++ " is " ++ (if isParam then "a parameter" else "an expression") ++ " but sits " ++
      (if i < f.arity then "inside" else "outside") ++ " the arity"
  | species i => f.label i ++ " has a constraint"
  | operandCount i found function expected =>
    f.label i ++ " passes " ++ Text.decimal found ++ " operands to " ++ function ++
      ", which takes " ++ Text.decimal expected
  | forward i k j =>
    f.label i ++ " operand " ++ Text.decimal k ++ " refers forward to " ++ f.label j
  | operandType i k found function expected =>
    f.label i ++ " operand " ++ Text.decimal k ++ " has type " ++ String.singleton found.letter ++
      ", " ++ function ++ " expects " ++ String.singleton expected.letter
  | result r => "result " ++ Text.decimal r ++ " is out of range"

/-- The defect of operand `operand` of expression `index`, which has to have type `expected`. -/
def operandDefect? (f : Form) (index operand : Nat) (function : String) (a : Arg)
    (expected : BasicType) : Option Defect :=
  match a with
  | .name target =>
    if index ≤ target then some (.forward index operand target)
    else
      let found := (f.names[target]?.map Name.type).getD .void
      if found = expected then none
      else some (.operandType index operand found function expected)
  | .const value =>
    if value.basicType = expected then none
    else some (.operandType index operand value.basicType function expected)

/-- The first defect of the operands from `operand` on. -/
def operandsDefect? (f : Form) (index : Nat) (function : String) :
    Nat → List Arg → List BasicType → Option Defect
  | operand, a :: args, t :: types =>
    (f.operandDefect? index operand function a t).or
      (f.operandsDefect? index function (operand + 1) args types)
  | _, _, _ => none

/-- The first defect of name `index`. -/
def nameDefect? (f : Form) (index : Nat) (n : Name Form) : Option Defect :=
  let inside := decide (index < f.arity)
  if n.isParam != inside then some (.misplaced index n.isParam)
  else if n.species.isSome && (!inside || n.type != .ref) then some (.species index)
  else match n.expr with
    | none => none
    | some e =>
      let expected := e.function.params
      if expected.length ≠ e.args.length then
        some (.operandCount index e.args.length e.function.text expected.length)
      else f.operandsDefect? index e.function.text 0 e.args expected

/-- The first defect of the names from `index` on. -/
def namesDefect? (f : Form) : Nat → List (Name Form) → Option Defect
  | _, [] => none
  | index, n :: ns => (f.nameDefect? index n).or (f.namesDefect? (index + 1) ns)

/-- The first defect of a form. -/
def defect? (f : Form) : Option Defect :=
  if f.size < f.arity then some (.arity f.arity f.size)
  else if Signature.maxSlots < f.slots then some (.slots f.slots)
  else (f.namesDefect? 0 f.names).or <|
    match f.result with
    | some r => if r < f.size then none else some (.result r)
    | none => none

/-- The invariants of forms. -/
structure WellFormed (f : Form) : Prop where
  arity_le : f.arity ≤ f.size
  slots_le : f.slots ≤ Signature.maxSlots
  /-- Exactly the names below the arity are parameters. -/
  isParam_iff : ∀ (i : Nat) (n : Name Form), f.names[i]? = some n →
    (n.isParam = true ↔ i < f.arity)
  /-- Only reference parameters are carriers. -/
  carrier : ∀ (i : Nat) (n : Name Form), f.names[i]? = some n → n.species.isSome →
    i < f.arity ∧ n.type = .ref
  /-- Operands are as many as the function takes. -/
  operandCount : ∀ (i : Nat) (n : Name Form) (e : Expr Form),
    f.names[i]? = some n → n.expr = some e → e.args.length = e.function.params.length
  /-- An operand that is a name is an earlier one, of the type that the function takes. -/
  nameOperand : ∀ (i k j : Nat) (n : Name Form) (e : Expr Form) (t : BasicType),
    f.names[i]? = some n → n.expr = some e → e.args[k]? = some (.name j) →
    e.function.params[k]? = some t → j < i ∧ (f.names[j]?.map Name.type).getD .void = t
  /-- An operand that is a constant has the type that the function takes. -/
  constOperand : ∀ (i k : Nat) (c : Constant) (n : Name Form) (e : Expr Form) (t : BasicType),
    f.names[i]? = some n → n.expr = some e → e.args[k]? = some (.const c) →
    e.function.params[k]? = some t → c.basicType = t
  result_lt : ∀ r : Nat, f.result = some r → r < f.size

end Form

end HandleForms
