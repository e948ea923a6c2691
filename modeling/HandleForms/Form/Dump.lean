import HandleForms.Form.Basic

/-!
# Dumps of forms

A form is written as its parameters, its expressions and its result:

    (a0:L/LI,a1:I)=>{
        t2:L=BoundField[LI.0](a0);
        t3:L=InvokeBasic[(LI)L](t2,a1);
    }t3

The dump on one line has the same parts without line breaks.
-/

namespace HandleForms.Form

/-- An operand: the label of a name, or a constant. -/
def argText (f : Form) : Arg → String
  | .name index => f.label index
  | .const value => value.text

/-- Operands between commas. -/
def argsText (f : Form) (args : List Arg) : String := ",".intercalate (args.map f.argText)

/-- A function applied to operands. -/
def callText (f : Form) (e : Expr Form) : String :=
  e.function.text ++ "(" ++ f.argsText e.args ++ ")"

/-- One parameter. -/
def paramText (f : Form) (index : Nat) (n : Name Form) : String :=
  f.label index ++ ":" ++ String.singleton n.type.letter ++
    match n.species with
    | none => ""
    | some s => "/" ++ s.key

/-- One expression. -/
def exprText (f : Form) (index : Nat) (n : Name Form) : String :=
  f.label index ++ ":" ++ String.singleton n.type.letter ++ "=" ++
    (match n.expr with
      | none => "()"
      | some e => f.callText e) ++ ";"

/-- The result as it follows the closing brace. -/
def resultText (f : Form) : String :=
  match f.result with
  | none => "void"
  | some r => f.label r

/-- The dump with `lead` before every expression and `last` after the last one. -/
def dumpWith (lead last : String) (f : Form) : String :=
  let params := (f.names.take f.arity).mapIdx f.paramText
  let exprs := (f.names.drop f.arity).mapIdx fun i n => lead ++ f.exprText (f.arity + i) n
  "(" ++ ",".intercalate params ++ ")=>\x7b" ++ String.join exprs ++
    (if exprs.isEmpty then "" else last) ++ "\x7d" ++ f.resultText

/-- The dump on one line. -/
def line (f : Form) : String := f.dumpWith "" ""

/-- The dump with one line per expression. -/
def text (f : Form) : String := f.dumpWith "\n    " "\n"

end HandleForms.Form
