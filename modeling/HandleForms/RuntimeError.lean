import HandleForms.Context

/-!
# Errors of invocations

Why making, adapting or invoking a handle fails, and the name and text of each cause.
-/

namespace HandleForms

/-- Why making, adapting or invoking a handle fails. -/
inductive RuntimeError where
  /-- Too many expressions were evaluated. -/
  | outOfFuel
  /-- Too many forms are running inside each other. -/
  | recursionLimit
  /-- The type of a handle is not the one that is asked for. -/
  | wrongType (expected found : Signature)
  | arityMismatch (expected found : Nat)
  | argumentType (position : Nat) (expected found : BasicType)
  /-- The array to be spread does not have as many elements as are taken from it. -/
  | spreadLength (expected found : Nat)
  | nullPointer (operation : String)
  | classCast (expected found : String)
  | indexOutOfBounds (index : Int) (length : Nat)
  | classInitFailed (cls reason : String)
  | unknownPrimitive (name : String)
  | unknownMember (cls name : String)
  | invalidReorder (reason : String)
  /-- A failure that host code reports. -/
  | host (text : String)
  | form (e : FormError)
  | signature (e : SignatureError)
  deriving DecidableEq

/-- The name of the kind of an error. -/
def RuntimeError.kind : RuntimeError → String
  | outOfFuel => "ExecFuelExhausted"
  | recursionLimit => "RecursionLimitExceeded"
  | wrongType _ _ => "WrongMethodType"
  | arityMismatch _ _ => "ArityMismatch"
  | argumentType _ _ _ => "ArgumentType"
  | spreadLength _ _ => "SpreadLength"
  | nullPointer _ => "NullPointer"
  | classCast _ _ => "ClassCast"
  | indexOutOfBounds _ _ => "IndexOutOfBounds"
  | classInitFailed _ _ => "ClassInitFailed"
  | unknownPrimitive _ => "UnknownPrimitive"
  | unknownMember _ _ => "UnknownMember"
  | invalidReorder _ => "InvalidReorder"
  | host _ => "Host"
  | form e => causedBy "Form" e.kind
  | signature e => causedBy "Type" e.kind

open Text (decimal) in
/-- The text of an error. -/
def RuntimeError.message : RuntimeError → String
  | outOfFuel => "runtime execution limit exceeded"
  | recursionLimit => "runtime recursion limit exceeded"
  | wrongType expected found =>
    "wrong method type: expected " ++ expected.text ++ ", found " ++ found.text
  | arityMismatch expected found =>
    "expected " ++ decimal expected ++ " arguments, found " ++ decimal found
  | argumentType position expected found =>
    "argument " ++ decimal position ++ " has basic type " ++ String.singleton found.letter ++
      ", expected " ++ String.singleton expected.letter
  | spreadLength expected found =>
    "array is not of length " ++ decimal expected ++ " (length " ++ decimal found ++ ")"
  | nullPointer operation => "null value in " ++ operation
  | classCast expected found => "cannot use " ++ found ++ " as " ++ expected
  | indexOutOfBounds index length =>
    "index " ++ toString index ++ " out of bounds for length " ++ decimal length
  | classInitFailed cls reason => "initialization of " ++ cls ++ " failed: " ++ reason
  | unknownPrimitive name => "unknown primitive \x60" ++ name ++ "\x60"
  | unknownMember cls name => "unknown member " ++ cls ++ "." ++ name
  | invalidReorder reason => "invalid argument reordering: " ++ reason
  | host text => text
  | form e => e.message
  | signature e => e.message

end HandleForms
