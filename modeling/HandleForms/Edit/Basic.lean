import HandleForms.Context

/-!
# Edits of forms

An edit says how a form is to be adapted: a parameter bound to a field of the carrier, added,
merged into another one or spread over the elements of an array, a filter, collector or combiner put
in front of it, the result filtered, or the parameters permuted. Parameter 0 is the handle that is
being called and is never edited away.

`Edit.check` holds the preconditions of an edit and the reasons to refuse it, `Edit.normal` brings
edits that derive the same form to one shape, and `Edit.key` is what the cache of the base knows it
by.
-/

namespace HandleForms

/-- How a form is to be adapted. -/
inductive Edit where
  /-- Parameter `pos` becomes a read of a new carrier field. -/
  | bind (pos : Nat) (type : BasicType)
  /-- A parameter that nothing reads is added at `pos`. -/
  | add (pos : Nat) (type : BasicType)
  /-- Every use of parameter `dst` reads parameter `src`. -/
  | dup (src dst : Nat)
  /-- The `count` parameters from `pos` on become the elements of one array. -/
  | spread (pos : Nat) (array : Ty) (count : Nat)
  /-- Parameter `pos` takes `type` and passes a filter, which is kept in a new carrier field. -/
  | filter (pos : Nat) (type : BasicType)
  /-- The parameters of a collector take the place of parameter `pos`, which gets its result. A
  collector that returns nothing only adds its parameters. -/
  | collect (pos : Nat) (collector : Signature)
  /-- The result passes a filter, which is kept in a new carrier field. -/
  | filterReturn (type : BasicType)
  /-- The result is replaced by the zero of `type`. -/
  | zeroReturn (type : BasicType)
  /-- A combiner runs over the parameters from `pos` on; unless it is dropped, its result takes the
  place of parameter `pos`. -/
  | fold (pos : Nat) (drop : Bool) (combiner : Signature)
  /-- Parameter `skip + i` is supplied by parameter `skip + reorder[i]`. -/
  | permute (skip : Nat) (reorder : List Nat)
  deriving DecidableEq

namespace Form

/-- The type of parameter `pos`. -/
def paramType (f : Form) (pos : Nat) : Except Violation BasicType :=
  match f.param? pos with
  | some t => .ok t
  | none => .error .outOfBounds

/-- Refuses a declared type that is not the type of parameter `pos`. -/
def expectParam (f : Form) (pos : Nat) (requested : BasicType) :
    Except (Stop FormError) Unit := do
  let actual ← f.paramType pos
  if actual = requested then return
  else throw (.error (.typeMismatch pos actual requested))

/-- Refuses declared types that are not the types of the parameters from `pos` on. -/
def expectParams (f : Form) (pos : Nat) : List BasicType → Except (Stop FormError) Unit
  | [] => .ok ()
  | t :: ts => do
    f.expectParam pos t
    f.expectParams (pos + 1) ts

/-- Refuses a declared type that is not the type of each of the `count` parameters from `pos` on. -/
def expectRun (f : Form) (pos : Nat) (requested : BasicType) :
    Nat → Except (Stop FormError) Unit
  | 0 => .ok ()
  | count + 1 => do
    f.expectParam pos requested
    f.expectRun (pos + 1) requested count

/-- Refuses an edit after which the parameters would not fit in the slots. -/
def checkSlots (f : Form) (added removed : List BasicType) : Except (Stop FormError) Unit :=
  let slots := f.slots + BasicType.slotSum added - BasicType.slotSum removed
  if Signature.maxSlots < slots then .error (.error (.tooManySlots slots Signature.maxSlots))
  else .ok ()

/-- The species of the carrier in parameter 0; a plain reference carries no fields. -/
def carrier (f : Form) : Except Violation Species := do
  if (← f.paramType 0) = .ref then return (f.species? 0).getD SpeciesTable.top
  else throw .handleNotReference

end Form

namespace Edit

/-- A precondition of an edit. -/
def require (p : Prop) [Decidable p] (v : Violation) : Except (Stop FormError) Unit :=
  if p then .ok () else .error (.violation v)

/-- The number of parameters that the result of a collector or combiner takes the place of. -/
def resultArity (drop : Bool) : Nat := if drop then 0 else 1

/-- Whether every position is supplied by itself. -/
def isIdentity (reorder : List Nat) : Bool := reorder == List.range reorder.length

/-- Whether every position supplies exactly one. -/
def isPermutation (reorder : List Nat) : Bool :=
  reorder.all (· < reorder.length) && reorder.eraseDups.length == reorder.length

open Text (wordAdd) in
/-- The preconditions of an edit and the reasons to refuse it, in order. Positions and counts are
machine words, and so are their sums. -/
def check (base : Form) : Edit → Except (Stop FormError) Unit
  | bind pos type => do
    require (pos < base.arity) (.bindRange pos)
    base.expectParam pos type
  | add pos type => do
    require (0 < pos ∧ pos ≤ base.arity) (.addRange pos)
    require (type.isArg = true) .addVoid
    base.checkSlots [type] []
  | dup src dst => do
    require (0 < src ∧ src < dst ∧ dst < base.arity) (.dupRange src dst)
    require ((base.species? src).isNone = true) .dupCarrier
    require ((base.species? dst).isNone = true) .dupCarrier
    base.expectParam dst (← base.paramType src)
  | spread pos array count => do
    require (0 < pos ∧ wordAdd pos count ≤ base.arity) (.spreadRange pos count)
    match array.component? with
    | none => throw (.error (.notAnArray array))
    | some element =>
      let type := element.erase.basicType
      base.expectRun pos type count
      base.checkSlots [.ref] (List.replicate count type)
  | filter pos type => do
    require (0 < pos ∧ pos < base.arity) (.filterRange pos)
    require (type.isArg = true) .filterVoid
    base.checkSlots [type] [← base.paramType pos]
  | collect pos collector => do
    let drop := collector.basicRet == .void
    require (0 < pos ∧ wordAdd pos (resultArity drop) ≤ base.arity) .collectRange
    if drop then base.checkSlots collector.basicParams []
    else
      base.expectParam pos collector.basicRet
      base.checkSlots collector.basicParams [collector.basicRet]
  | filterReturn _ | zeroReturn _ => .ok ()
  | fold pos drop combiner => do
    require (0 < pos) .foldHandle
    if (combiner.basicRet == .void) != drop ∨
        base.arity < wordAdd (wordAdd pos (resultArity drop)) combiner.arity then
      throw (.error (.incompatibleCombiner combiner.basic (← base.signature)))
    if !drop then base.expectParam pos combiner.basicRet
    base.expectParams (wordAdd pos (resultArity drop)) combiner.basicParams
  | permute skip reorder => do
    require (skip = 1) .permuteSkip
    require (skip + reorder.length = base.arity) .permuteLength
    require (isPermutation reorder = true) (.notPermutation reorder)

/-- The shape of an edit that it shares with all that derive the same form. A collector of one
parameter with a result is a filter. One without parameters and without a result has no place of its
own, so it goes to the first. -/
def normal : Edit → Edit
  | collect pos collector =>
    match collector.basicParams, collector.basicRet with
    | [], .void => collect 1 collector
    | [t], ret => if ret = .void then collect pos collector else filter pos t
    | _, _ => collect pos collector
  | e => e

/-- The operand that stands for the element type of an array. Loads of the narrow types differ from
those of `int`, so they have numbers of their own behind those of the basic types. -/
def elementOperand : Ty → Nat
  | .boolean => BasicType.count
  | .byte => BasicType.count + 1
  | .short => BasicType.count + 2
  | .char => BasicType.count + 3
  | element => element.basicType.ordinal

/-- The kind and the operands by which the cache of the base knows an edit. -/
def operands : Edit → EditKind × List Nat
  | bind pos _ => (.bindArg, [pos])
  | add pos type => (.addArg, [pos, type.ordinal])
  | dup src dst => (.dupArg, [src, dst])
  | spread pos array count =>
    (.spreadArgs, [pos, elementOperand ((array.component?.getD array).erase), count])
  | filter pos type => (.filterArg, [pos, type.ordinal])
  | collect pos collector =>
    (if collector.basicRet = .void then .collectArgsToVoid else .collectArgs,
      pos :: collector.arity :: collector.basicParams.map BasicType.ordinal)
  | filterReturn type => (.filterReturn, [type.ordinal])
  | zeroReturn type => (.filterReturnToZero, [type.ordinal])
  | fold pos drop combiner =>
    (if drop then .foldArgsToVoid else .foldArgs, [pos, combiner.arity])
  | permute _ reorder => (.permuteArgs, reorder)

/-- The key by which the cache of the base knows an edit. -/
def key (e : Edit) : Except Violation EditKey := EditKey.of e.operands.1 e.operands.2

/-- The field that an edit appends to the carrier. -/
def field? : Edit → Option BasicType
  | bind _ type => some type
  | filter _ _ | collect _ _ | filterReturn _ | fold _ _ _ => some .ref
  | add _ _ | dup _ _ | spread _ _ _ | zeroReturn _ | permute _ _ => none

/-- Whether an edit leaves every form as it is. -/
def isTrivial : Edit → Bool
  | permute _ reorder => isIdentity reorder
  | _ => false

end Edit

end HandleForms
