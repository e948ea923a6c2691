import HandleForms.Cli.Command

/-!
# Matching command-line arguments

A command line is the name of a command followed by options, flags and one signature, in any order.
Options take a value, `-e X`, `-eX`, `-e=X`, `--edit X` or `--edit=X`; flags take none and may stand
once. After `--` every argument is a signature. Arguments are matched from left to right, and the
first one that does not match, or that asks for help, decides how the matching ends.
-/

namespace HandleForms.Cli

/-- Why arguments are no command. -/
inductive Refusal where
  /-- The arguments do not match. -/
  | usage
  /-- Help was asked for. -/
  | help
  deriving DecidableEq, Repr

/-- The options that take a value. -/
inductive ValueOption where
  /-- An edit; it may stand any number of times. -/
  | edit
  /-- The kind of dispatch. -/
  | kind
  deriving DecidableEq, Repr

namespace ValueOption

/-- The name behind one dash. -/
def short : ValueOption → Char
  | edit => 'e'
  | kind => 'k'

/-- The name behind two dashes. -/
def long : ValueOption → String
  | edit => "edit"
  | kind => "kind"

end ValueOption

/-- What a command accepts besides its signature. -/
structure Accepts where
  flags : List String
  options : List ValueOption
  deriving Repr

/-- The arguments that were matched so far. -/
structure Matched where
  signature : Option String := none
  edits : List String := []
  kind : Option DispatchKind := none
  flags : List String := []
  /-- The option that waits for its value. -/
  pending : Option ValueOption := none
  /-- Whether only signatures may follow. -/
  rest : Bool := false
  deriving Repr

namespace Matched

/-- Gives an option its value. -/
def setOption (m : Matched) (value : List Char) : ValueOption → Except Refusal Matched
  | .edit => .ok { m with edits := m.edits ++ [String.ofList value], pending := none }
  | .kind =>
    match m.kind, kindOfWord? (String.ofList value) with
    | none, some k => .ok { m with kind := some k, pending := none }
    | _, _ => .error .usage

/-- Takes the one signature. -/
def setSignature (m : Matched) (s : String) : Except Refusal Matched :=
  if m.signature.isSome then .error .usage else .ok { m with signature := some s }

/-- Raises a flag, which may stand once. -/
def setFlag (m : Matched) (name : String) : Except Refusal Matched :=
  if m.flags.contains name then .error .usage else .ok { m with flags := name :: m.flags }

/-- Matches what follows two dashes. -/
def matchLong (accepts : Accepts) (m : Matched) (body : List Char) : Except Refusal Matched :=
  let (name, value?) := match Text.splitOnce '=' body with
    | some (name, value) => (String.ofList name, some value)
    | none => (String.ofList body, none)
  if name = "help" then .error (if value?.isNone then .help else .usage)
  else if accepts.flags.contains name then
    if value?.isNone then m.setFlag name else .error .usage
  else match accepts.options.find? fun o => o.long == name, value? with
    | some o, some value => m.setOption value o
    | some o, none => .ok { m with pending := some o }
    | none, _ => .error .usage

/-- Matches what follows one dash: a letter and perhaps the value of its option. -/
def matchShort (accepts : Accepts) (m : Matched) (letter : Char) (value : List Char) :
    Except Refusal Matched :=
  if letter = 'h' then .error .help
  else match accepts.options.find? fun o => o.short == letter, value with
    | some o, [] => .ok { m with pending := some o }
    | some o, '=' :: value => m.setOption value o
    | some o, value => m.setOption value o
    | none, _ => .error .usage

/-- Matches one more argument. A value that is not attached to its option may not start with a dash,
unless it is nothing but the dash. -/
def next (accepts : Accepts) (m : Matched) (arg : String) : Except Refusal Matched :=
  if m.rest then m.setSignature arg
  else match m.pending, arg.toList with
    | some _, '-' :: _ :: _ => .error .usage
    | some o, value => m.setOption value o
    | none, ['-', '-'] => .ok { m with rest := true }
    | none, '-' :: '-' :: body => m.matchLong accepts body
    | none, '-' :: letter :: value => m.matchShort accepts letter value
    | none, _ => m.setSignature arg

/-- Matches all arguments. -/
def all (accepts : Accepts) (args : List String) : Except Refusal Matched :=
  args.foldlM (next accepts) {}

/-- Whether a flag was raised. -/
def has (m : Matched) (flag : String) : Bool := m.flags.contains flag

/-- The signature, once every option has its value. -/
def finish (m : Matched) : Except Refusal String :=
  match m.pending, m.signature with
  | none, some s => .ok s
  | _, _ => .error .usage

end Matched

/-- The names of the commands. -/
def commandNames : List String := ["dump", "invoker", "direct", "erase"]

/-- The command that the arguments after its name describe. -/
def matchCommand (name : String) (args : List String) : Except Refusal Command :=
  match name with
  | "dump" => do
    let m ← Matched.all ⟨["last", "stats"], [.edit]⟩ args
    return .dump (← m.finish) m.edits (m.has "last") (m.has "stats")
  | "invoker" => do
    let m ← Matched.all ⟨["generic", "linker"], []⟩ args
    return .invoker (← m.finish) (m.has "generic") (m.has "linker")
  | "direct" => do
    let m ← Matched.all ⟨["init"], [.kind]⟩ args
    match m.kind with
    | some kind => return .direct (← m.finish) kind (m.has "init")
    | none => throw .usage
  | "erase" => do
    let m ← Matched.all ⟨[], []⟩ args
    return .erase (← m.finish)
  | _ => .error .usage

/-- The command that some arguments describe. Help is asked for by a flag in front, or by the word
`help` and perhaps the name of a command. -/
def matchArguments : List String → Except Refusal Command
  | [] => .error .usage
  | "help" :: topics =>
    match topics with
    | [] => .error .help
    | [topic] => .error (if ("help" :: commandNames).contains topic then .help else .usage)
    | _ => .error .usage
  | name :: args =>
    match name.toList with
    | '-' :: 'h' :: _ => .error .help
    | _ => if name = "--help" then .error .help else matchCommand name args

end HandleForms.Cli
