import HandleForms.Form.Dump
import HandleForms.Value

/-!
# Traces

A trace is a list of indented lines that say which forms were entered and left, with what result,
and when a direct handle dropped its barrier. A more verbose trace also has a line for every
expression, once its value is known, and the arguments of every form that is entered.
-/

namespace HandleForms

/-- How much a trace says. -/
inductive Verbosity where
  /-- Entry and exit of forms. -/
  | default
  /-- Also every expression. -/
  | verbose
  /-- Also the arguments of every form. -/
  | veryVerbose
  deriving DecidableEq, Repr, Inhabited

/-- The verbosity of a level, from zero on. -/
def Verbosity.ofLevel? : Nat → Option Verbosity
  | 0 => some default
  | 1 => some verbose
  | 2 => some veryVerbose
  | _ => none

/-- The trace of an execution so far. -/
structure Trace where
  verbosity : Verbosity
  /-- The lines, the latest first. -/
  reversed : List String
  /-- How many forms are open. -/
  depth : Nat
  /-- The expressions that wait for their values, the innermost first. -/
  pending : List String
  deriving Repr, DecidableEq

namespace Trace

/-- A trace without lines. -/
def empty (verbosity : Verbosity) : Trace := ⟨verbosity, [], 0, []⟩

/-- The lines in order. -/
def lines (t : Trace) : List String := t.reversed.reverse

/-- The trace as one text, every line ended. -/
def dump (t : Trace) : String := String.join (t.lines.map fun line => line ++ "\n")

/-- Adds a line, indented by the number of open forms. -/
def push (t : Trace) (line : String) : Trace :=
  { t with reversed := (String.join (List.replicate t.depth "  ") ++ line) :: t.reversed }

/-- A form is entered with these arguments. -/
def enter (t : Trace) (f : Form) (args : List Value) : Except Violation Trace := do
  let t := t.push ("enter " ++ f.kind.name ++ " " ++ (← f.signature).text)
  let shown := if t.verbosity = .veryVerbose then args else []
  let t := (shown.mapIdx fun i v => "  a" ++ Text.decimal i ++ " = " ++ v.text).foldl push t
  return { t with depth := t.depth + 1 }

/-- Expression `index` of a form is about to be evaluated. -/
def expression (t : Trace) (f : Form) (index : Nat) (e : Expr Form) : Trace :=
  if t.verbosity = .default then t
  else { t with pending := (f.label index ++ " = " ++ f.callText e) :: t.pending }

/-- The expression that was evaluated last has a value. -/
def value (t : Trace) (v : Value) : Trace :=
  match t.pending with
  | [] => t
  | line :: pending => { t with pending }.push (line ++ " -> " ++ v.text)

/-- A form is left with a result. -/
def exit (t : Trace) (f : Form) (result : Value) : Trace :=
  { t with depth := t.depth - 1 }.push ("exit " ++ f.kind.name ++ " -> " ++ result.text)

/-- A direct handle gets another form. -/
def swap (t : Trace) (old new : Form) : Trace :=
  t.push ("swap " ++ old.kind.name ++ " -> " ++ new.kind.name)

end Trace

end HandleForms
