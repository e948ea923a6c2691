import HandleForms.Host.Basic

/-!
# Bodies of host functions

A small language for the bodies of primitives, members and initializers, and what each body does as
host code. The texts of values that bodies join and measure are those of `Value.text`, except that a
string stands for itself.
-/

namespace HandleForms

/-- A view of a value, by the sort it asks for. -/
inductive View where
  | int
  | long
  | str
  | signature
  | handle
  | member
  | object
  deriving DecidableEq, Repr

/-- The view of a name. -/
def View.ofName? : String → Option View
  | "int" => some int
  | "long" => some long
  | "str" => some str
  | "type" => some signature
  | "handle" => some handle
  | "member" => some member
  | "object" => some object
  | _ => none

/-- The value, if it is of the sort that the view asks for. -/
def View.check (view : View) (v : Value) : Except RuntimeError Value :=
  match view with
  | int => v.asInt.map fun _ => v
  | long => v.asLong.map fun _ => v
  | str => v.asStr.map fun _ => v
  | signature => v.asSignature.map fun _ => v
  | handle => v.asHandle.map fun _ => v
  | member => v.asMember.map fun _ => v
  | object => v.asObject.map fun _ => v

/-- What a host function does with its arguments. -/
inductive Body where
  /-- Makes a value, a new one every time. -/
  | const (plan : Blueprint)
  /-- Joins the texts of the arguments. -/
  | concat
  /-- The text of the first argument in capitals. -/
  | upper
  /-- The number of bytes of the text of the first argument. -/
  | length
  /-- The number of bytes of the texts of all arguments. -/
  | measure
  /-- The sum of all arguments. -/
  | add
  /-- Logs the texts of the arguments. -/
  | log
  /-- Logs a text. -/
  | say (text : String)
  /-- Reports an error. -/
  | err (text : String)
  | panic (text : String)
  /-- Sets fields of the first argument to the other arguments. -/
  | set (names : List String)
  /-- Reads a field of the first argument. -/
  | get (name : String)
  /-- Invokes the first argument with the others. -/
  | apply
  /-- The sorts of the arguments. -/
  | types
  /-- The first argument, viewed at a sort. -/
  | as (view : View)
  /-- Invokes a static method through a new handle, and logs the kind of its form before and after.
  -/
  | call (cls name : String) (type : Signature)
  /-- Runs bodies one after the other and answers what the last one answers. -/
  | seq (bodies : List Body)

/-- The state of a table of host functions. -/
structure TableState where
  /-- The classes whose initializer has succeeded. -/
  initialized : List String
  /-- What was logged, the latest first. -/
  logged : List String
  deriving DecidableEq, Repr

namespace Body

/-- Host code over a table. -/
abbrev Code (α : Type) := Script TableState RuntimeError α

/-- The bodies that need nothing but their arguments, by name. -/
def ofName? : String → Option Body
  | "concat" => some concat
  | "upper" => some upper
  | "length" => some length
  | "measure" => some measure
  | "add" => some add
  | "log" => some log
  | "apply" => some apply
  | "types" => some types
  | _ => none

/-- A string stands for itself; other values are shown. -/
def textOf : Value → String
  | .str s => s
  | v => v.text

/-- A number of bytes as a value. -/
def byteCount (n : Nat) : Value := .int (Int32.ofNat n)

/-- The first argument. -/
def first : List Value → Except RuntimeError Value
  | [] => .error (.host "no argument 0")
  | v :: _ => .ok v

/-- Logs a text. -/
def logText (text : String) : Code Unit :=
  .getState fun s => .setState { s with logged := text :: s.logged } (.pure ())

/-- Sets fields of an object one after the other. -/
def setFields (object : Nat) : List (String × Value) → Code Unit
  | [] => .pure ()
  | (name, value) :: rest => .setField object name value (setFields object rest)

/-- Invokes a handle. -/
def invoke (h : Handle) (args : List Value) : Code (Except RuntimeError Value) :=
  .invoke h .basic args .pure

/-- Invokes a static method through a new handle, and logs the kind of its form before and after. -/
def callStatic (cls name : String) (type : Signature) (args : List Value) : Code Value :=
  .make (.direct ⟨cls, name, type, .static⟩) fun
    | .error e => .fail e
    | .ok h => .hold (.handle h) <| .formKind h fun before => do
      logText ("before " ++ before.name)
      let result ← invoke h args
      let after ← .formKind h .pure
      logText ("after " ++ after.name)
      .release (.ofExcept result)

/-- The sum of some numbers. -/
def sum : List Value → Except RuntimeError Int32
  | [] => .ok 0
  | v :: vs => do
    let n ← v.asInt
    return n + (← sum vs)

mutual

/-- What a body does with its arguments. -/
def run (args : List Value) : Body → Code Value
  | const plan => .create plan .pure
  | concat => .pure (.str (String.join (args.map textOf)))
  | upper => .ofExcept ((first args).map fun v => .str ((textOf v).map Char.toUpper))
  | length => .ofExcept ((first args).map fun v => byteCount (textOf v).utf8ByteSize)
  | measure => .pure (byteCount ((args.map fun v => (textOf v).utf8ByteSize).foldl (· + ·) 0))
  | add => .ofExcept ((sum args).map .int)
  | log => do
    logText (",".intercalate (args.map textOf))
    return .void
  | say text => do
    logText text
    return .void
  | err text => .fail (.host text)
  | panic text => .panic text
  | set names => do
    let (object, _) ← .ofExcept ((first args).bind Value.asObject)
    setFields object (names.zip args.tail)
    return .void
  | get name => do
    let (object, _) ← .ofExcept ((first args).bind Value.asObject)
    .getField object name .pure
  | apply => do
    let h ← .ofExcept ((first args).bind Value.asHandle)
    .ofExcept (← invoke h args.tail)
  | types => .pure (.str (",".intercalate (args.map Value.sort)))
  | as view => .ofExcept ((first args).bind view.check)
  | call cls name type => callStatic cls name type args
  | seq bodies => runAll args .void bodies

/-- Runs bodies one after the other; `last` is what the one before answered. -/
def runAll (args : List Value) (last : Value) : List Body → Code Value
  | [] => .pure last
  | b :: bs => (run args b).bind fun v => runAll args v bs

end

end Body

end HandleForms
