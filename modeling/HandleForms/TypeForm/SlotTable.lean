import HandleForms.Signature

/-!
# Counts and slot tables of a signature

`ArgCounts` counts parameters and results by size. A `SlotTable` maps arguments to the interpreter
slots they start at and slots to the argument they hold; both lists end in a sentinel, the number of
slots and the number of arguments.
-/

namespace HandleForms

/-- How many parameters and results a signature has, by size and sort. -/
structure ArgCounts where
  parameters : Nat
  parameterSlots : Nat
  primitiveParameters : Nat
  longParameters : Nat
  returns : Nat
  returnSlots : Nat
  primitiveReturns : Nat
  longReturns : Nat
  deriving DecidableEq, Repr

namespace ArgCounts

/-- The counts of a signature. -/
def of (s : Signature) : ArgCounts where
  parameters := s.arity
  parameterSlots := s.slots
  primitiveParameters := s.params.countP Ty.isPrimitive
  longParameters := s.params.countP Ty.isDoubleWidth
  returns := if s.ret.isVoid then 0 else 1
  returnSlots := s.ret.basicType.slots
  primitiveReturns := if !s.ret.isVoid && s.ret.isPrimitive then 1 else 0
  longReturns := if s.ret.isDoubleWidth then 1 else 0

/-- The counts in the order of their declaration. -/
def toList (c : ArgCounts) : List Nat :=
  [c.parameters, c.parameterSlots, c.primitiveParameters, c.longParameters, c.returns,
    c.returnSlots, c.primitiveReturns, c.longReturns]

end ArgCounts

/-- The mapping between arguments and slots. -/
structure SlotTable where
  /-- The first slot of each argument, then the number of slots. -/
  argToSlot : List Nat
  /-- The argument in each slot, then the number of arguments. -/
  slotToArg : List Nat
  deriving DecidableEq, Repr

namespace SlotTable

/-- The table of a parameter list in which every argument takes one slot. -/
def singleSlot (arity : Nat) : SlotTable := ⟨List.range (arity + 1), List.range (arity + 1)⟩

/-- The first slots of the arguments, when the first of them starts at `slot`; the end comes last.
-/
def starts (slot : Nat) : List Ty → List Nat
  | [] => [slot]
  | t :: ts => slot :: starts (slot + t.basicType.slots) ts

/-- The arguments of the slots, when the first argument is number `arg`; the end comes last. -/
def holders (arg : Nat) : List Ty → List Nat
  | [] => [arg]
  | t :: ts => List.replicate t.basicType.slots arg ++ holders (arg + 1) ts

/-- The table of a parameter list. -/
def of (params : List Ty) : SlotTable := ⟨starts 0 params, holders 0 params⟩

end SlotTable

end HandleForms
