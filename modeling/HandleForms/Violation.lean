import HandleForms.Form.Verify

/-!
# Broken preconditions

Operations on forms, drafts and handles have preconditions that the caller promises. An operation
whose precondition does not hold stops with a `Violation` instead of an answer. `Stop` joins the two
ways in which an operation can end without one: an error that it reports, and a violation.
-/

namespace HandleForms

/-- A precondition that did not hold. -/
inductive Violation where
  /-- A position or a range outside a list. -/
  | outOfBounds
  /-- The names do not make a form. -/
  | malformed (f : Form) (d : Form.Defect)
  /-- A form has no such parameter. -/
  | noParameter (index arity : Nat)
  /-- The parameters of a form are not those of a signature. -/
  | noSignature (e : SignatureError)
  -- Species and edit keys
  | extendedByVoid (species : String)
  | noField (species : String) (index : Nat)
  /-- An operand of an edit key does not fit in a byte. -/
  | keyOperand (value : Nat) (kind : String)
  -- Drafts
  | editOpen
  | editClosed
  | misplacedName (pos arity : Nat)
  | changedTwice (pos : Nat)
  | resultNotPlaced (id : Nat)
  /-- Fewer functions to put in than functions to replace. -/
  | tooFewFunctions
  | notParameter (pos : Nat)
  | noName (pos : Nat)
  /-- An expression where a parameter is asked for. -/
  | paramExpected
  /-- A parameter where an expression is asked for. -/
  | exprExpected
  | retyped (pos : Nat)
  | placedBefore
  | copyOfItself
  | parameterPastArity (pos : Nat)
  | expressionAmongParameters (pos : Nat)
  /-- Following replacements never comes to an end, so there is no answer at all. -/
  | endless
  | duplicateNotFound (id : Nat)
  | hole (pos : Nat)
  | unplacedOperand (pos id : Nat)
  -- Edits
  | handleNotReference
  | bindRange (pos : Nat)
  | bindCarrier
  | addRange (pos : Nat)
  | addVoid
  | dupRange (src dst : Nat)
  | dupCarrier
  | spreadRange (pos count : Nat)
  | filterRange (pos : Nat)
  | filterVoid
  | collectRange
  | foldHandle
  | combinationRange
  | permuteSkip
  | permuteLength
  | notPermutation (reorder : List Nat)
  -- Handles
  | bindPosition (pos : Nat) (type : Signature)
  | dropPosition (pos : Nat) (type : Signature)
  | dupPositions (src dst : Nat) (type : Signature)
  | spreadPosition (pos count : Nat) (type : Signature)
  | filterPosition (pos : Nat) (type : Signature)
  | collectPosition (pos : Nat) (type : Signature)
  | constructorAsMethod
  /-- A linker call without operands, so without a member. -/
  | memberMissing
  /-- A thread waits for an initializer that nobody is running. -/
  | neverReady
  -- Host code
  /-- Host code gave up with this text. -/
  | hostPanic (text : String)
  /-- Host code called back into the runtime more deeply than the runtime allows. -/
  | reentry

namespace Violation

/-- A list of numbers in brackets. -/
def listText (ns : List Nat) : String := "[" ++ ", ".intercalate (ns.map Text.decimal) ++ "]"

/-- What is said where a promise was taken for granted. -/
def impossible (promise : String) : String := "internal error: entered unreachable code: " ++ promise

open Text (decimal) in
/-- The description of a violation; some have none. -/
def text? : Violation → Option String
  | malformed _ (.arity _ _) => none
  | malformed f d => some ("malformed " ++ f.kind.name ++ " form: " ++ d.text f ++ "\n" ++ f.text)
  | noParameter i a => some ("no parameter " ++ decimal i ++ " in a form of arity " ++ decimal a)
  | noSignature e => some (impossible ("verified form has a valid signature: " ++ e.message))
  | extendedByVoid s => some ("cannot extend Species[" ++ s ++ "] with V")
  | noField s i => some ("Species[" ++ s ++ "] has no field " ++ decimal i)
  | keyOperand v k => some ("operand " ++ decimal v ++ " of " ++ k)
  | editOpen => some "edit already in progress"
  | editClosed => some "no edit in progress"
  | misplacedName pos a =>
    some ("name " ++ decimal pos ++ " is misplaced relative to arity " ++ decimal a)
  | changedTwice pos => some ("name " ++ decimal pos ++ " changed twice")
  | resultNotPlaced id => some ("result " ++ decimal id ++ " is not placed")
  | notParameter pos => some ("position " ++ decimal pos ++ " is not a parameter")
  | noName pos => some ("no name at " ++ decimal pos)
  | retyped pos => some ("retyping parameter " ++ decimal pos)
  | placedBefore => some "expression already placed"
  | parameterPastArity pos => some ("parameter inserted at " ++ decimal pos ++ " past arity")
  | expressionAmongParameters pos =>
    some ("expression inserted at " ++ decimal pos ++ " among parameters")
  | duplicateNotFound id => some ("duplicate " ++ decimal id ++ " not found")
  | hole pos => some ("hole at " ++ decimal pos)
  | unplacedOperand pos id =>
    some ("name " ++ decimal pos ++ " refers to unplaced or later name " ++ decimal id)
  | handleNotReference => some "parameter 0 must be a reference"
  | bindRange pos => some ("bind position " ++ decimal pos ++ " out of range")
  | bindCarrier => some "binding parameter 0 of a carrier form"
  | addRange pos => some ("add position " ++ decimal pos ++ " out of range")
  | addVoid => some "cannot add a void parameter"
  | dupRange src dst => some ("dup " ++ decimal src ++ " -> " ++ decimal dst ++ " out of range")
  | spreadRange pos n =>
    some ("spread " ++ decimal pos ++ "+" ++ decimal n ++ " out of range")
  | filterRange pos => some ("filter position " ++ decimal pos ++ " out of range")
  | foldHandle => some "cannot fold into the handle parameter"
  | permuteSkip => some "only the handle parameter is skipped"
  | permuteLength => some "reorder must cover every argument"
  | notPermutation r => some ("reorder " ++ listText r ++ " is not a permutation")
  | bindPosition pos t =>
    some ("bind position " ++ decimal pos ++ " out of range for " ++ t.text)
  | dropPosition pos t =>
    some ("drop position " ++ decimal pos ++ " out of range for " ++ t.text)
  | dupPositions src dst t =>
    some ("dup " ++ decimal src ++ " -> " ++ decimal dst ++ " out of range for " ++ t.text)
  | spreadPosition pos n t =>
    some ("spread " ++ decimal pos ++ "+" ++ decimal n ++ " out of range for " ++ t.text)
  | filterPosition pos t =>
    some ("filter position " ++ decimal pos ++ " out of range for " ++ t.text)
  | collectPosition pos t =>
    some ("collect position " ++ decimal pos ++ " out of range for " ++ t.text)
  | constructorAsMethod => some "use MemberName::constructor for constructors"
  | memberMissing => some (impossible "linker calls carry the member")
  | hostPanic text => some text
  | outOfBounds | endless | tooFewFunctions | paramExpected | exprExpected | copyOfItself | dupCarrier
  | filterVoid | collectRange | combinationRange | neverReady | reentry => none

end Violation

/-- How an operation ends without an answer. -/
inductive Stop (ε : Type) where
  /-- The operation reports an error. -/
  | error (e : ε)
  /-- A precondition of the operation did not hold. -/
  | violation (v : Violation)

namespace Stop

variable {ε δ : Type}

instance : Inhabited (Stop ε) := ⟨.violation .outOfBounds⟩

/-- Changes the type of the error. -/
def map (f : ε → δ) : Stop ε → Stop δ
  | error e => error (f e)
  | violation v => violation v

end Stop

/-- The answer of an operation that has preconditions but reports no errors, among those that do. -/
def Stop.ofViolation {ε α : Type} : Except Violation α → Except (Stop ε) α
  | .ok a => .ok a
  | .error v => .error (.violation v)

/-- The answer of an operation that reports errors but has no preconditions, among those that do. -/
def Stop.ofError {ε α : Type} : Except ε α → Except (Stop ε) α
  | .ok a => .ok a
  | .error e => .error (.error e)

instance {ε : Type} : MonadLift (Except Violation) (Except (Stop ε)) := ⟨Stop.ofViolation⟩

instance {ε : Type} : MonadLift (Except ε) (Except (Stop ε)) := ⟨Stop.ofError⟩

namespace Form

/-- The result that a form keeps: a name without a value counts as no result. -/
def keptResult (names : List (Name Form)) (result : Option Nat) : Option Nat :=
  result.filter fun r => (names[r]?.map Name.type) != some .void

/-- The form itself, if it is well-formed. -/
def verified (f : Form) : Except Violation Form :=
  match f.defect? with
  | none => .ok f
  | some d => .error (.malformed f d)

/-- The form over these names, whose result is one of them. -/
def assemble (id arity : Nat) (names : List (Name Form)) (result : Option Nat) (kind : FormKind) :
    Except Violation Form :=
  verified ⟨id, arity, names, keptResult names result, kind⟩

/-- The form over these names with the result that a client asks for, of which the form keeps the
number of a name. -/
def build (id arity : Nat) (names : List (Name Form)) (result : Option Nat) (kind : FormKind) :
    Except Violation Form :=
  verified ⟨id, arity, names, (keptResult names result).map nameNumber, kind⟩

/-- Parameter name `index`. -/
def parameter (f : Form) (index : Nat) : Except Violation (Name Form) :=
  if index < f.arity then
    match f.names[index]? with
    | some n => .ok n
    | none => .error .outOfBounds
  else .error (.noParameter index f.arity)

/-- The signature over the basic types of parameters and result. A well-formed form without a
parameter of type `void` has one. -/
def signature (f : Form) : Except Violation Signature :=
  match Signature.ofBasic f.ret f.params with
  | .ok s => .ok s
  | .error e => .error (.noSignature e)

end Form

end HandleForms
