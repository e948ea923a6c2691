import HandleForms.Cli.Arguments

/-!
# The command line

Prints the output of a command. Errors go to the error output with exit status 1; arguments that are
no command end with status 2.
-/

namespace HandleForms.Cli

/-- How to call the program. -/
def usageText : String :=
  lines ["Usage: handleforms dump SIGNATURE [-e EDIT]... [--last] [--stats]",
    "       handleforms invoker SIGNATURE [--generic] [--linker]",
    "       handleforms direct SIGNATURE -k KIND [--init]",
    "       handleforms erase SIGNATURE"]

/-- The text of a broken precondition. -/
def violationText (v : Violation) : String := (v.text?).getD "broken precondition"

end HandleForms.Cli

open HandleForms HandleForms.Cli in
/-- Runs the command that the arguments describe. -/
def main (args : List String) : IO UInt32 := do
  match matchArguments args with
  | .error .help =>
    IO.print usageText
    return 0
  | .error .usage =>
    IO.eprint usageText
    return 2
  | .ok command =>
    match command.render with
    | .ok text =>
      IO.print text
      return 0
    | .error (.error e) =>
      IO.eprintln ("error: " ++ e.message)
      return 1
    | .error (.violation v) =>
      IO.eprintln ("error: " ++ violationText v)
      return 1
