import HandleForms.Edit.Text
import HandleForms.Host.Table
import HandleForms.Invoke

/-!
# Commands

What the command line can be asked for: the forms that a chain of edits derives from the form of a
signature, the invoker or linker form of a signature, the form of a direct handle, and the erasure
of a signature. `Command.render` is the whole output of a command, or the reason why there is none.
-/

namespace HandleForms.Cli

/-- Why a command has no output. -/
inductive CommandError where
  /-- A text is no edit. -/
  | badEdit (text : String) (defect : Edit.TextDefect)
  /-- An edit has positions that the form does not have. -/
  | inapplicable (edit : Edit) (reason : String)
  /-- There is no direct handle of this kind and type. -/
  | unsupported (text : String)
  | signature (e : SignatureError)
  | form (e : FormError)
  | runtime (e : RuntimeError)
  deriving DecidableEq

/-- The name of the kind of an error. -/
def CommandError.kind : CommandError → String
  | badEdit _ _ => "BadEdit"
  | inapplicable _ _ => "Inapplicable"
  | unsupported _ => "Unsupported"
  | signature e => causedBy "Type" e.kind
  | form e => causedBy "Form" e.kind
  | runtime e => causedBy "Runtime" e.kind

/-- The text of an error. -/
def CommandError.message : CommandError → String
  | badEdit text defect => "bad edit \x60" ++ text ++ "\x60: " ++ defect.message
  | inapplicable edit reason => "cannot apply \x60" ++ edit.text ++ "\x60: " ++ reason
  | unsupported text => text
  | signature e => e.message
  | form e => e.message
  | runtime e => e.message

/-- The word for a kind of dispatch on the command line. -/
def kindWord : DispatchKind → String
  | .virtual => "virtual"
  | .static => "static"
  | .special => "special"
  | .interface => "interface"
  | .newSpecial => "constructor"

/-- The kind of dispatch that a word stands for. -/
def kindOfWord? (word : String) : Option DispatchKind :=
  [DispatchKind.virtual, .static, .special, .interface, .newSpecial].find? fun k =>
    kindWord k == word

/-- A command and its operands, as texts where they still have to be read. -/
inductive Command where
  /-- Derives forms by edits; `last` shows the last one only, `stats` the traffic of the caches. -/
  | dump (signature : String) (edits : List String) (last stats : Bool)
  /-- Shows an invoker, or the linker form of call sites. -/
  | invoker (signature : String) (generic linker : Bool)
  /-- Shows the form of a direct handle, with the class barrier or without. -/
  | direct (signature : String) (kind : DispatchKind) (barrier : Bool)
  /-- Shows the erasure of a signature. -/
  | erase (signature : String)
  deriving DecidableEq, Repr

/-- The output of a command, or why there is none. -/
abbrev Rendered := Except (Stop CommandError) String

/-- Lines, every one ended. -/
def lines (ls : List String) : String := String.join (ls.map fun l => l ++ "\n")

/-- Reads the signature of a command. -/
def readSignature (s : String) : Except (Stop CommandError) Signature :=
  Stop.ofError ((Signature.parse s).mapError .signature)

/-! ## Derived forms -/

/-- Reads an edit. -/
def readEdit (s : String) : Except (Stop CommandError) Edit :=
  Stop.ofError ((Edit.ofText s).mapError fun d => .badEdit s d)

/-- The form that the edits start from: it calls the primitive `target` with every argument. -/
def baseForm (c : Context Empty) (s : Signature) :
    Except (Stop CommandError) (Form × Context Empty) :=
  if Signature.maxHandleSlots < s.slots then
    .error (.error (.signature (.tooManySlots s.slots Signature.maxHandleSlots)))
  else do
    let (id, c) := c.freshForm
    return (← Form.external "target" s.basic id, c)

/-- A form with the step that led to it. -/
structure Step where
  title : String
  form : Form

/-- Applies edits one after the other. `steps` are the steps so far, the latest first, whose forms
are all kept alive. -/
def applyEdits (c : Context Empty) (base : Form) (steps : List Step) :
    List Edit → Except (Stop CommandError) (List Step × Context Empty)
  | [] => .ok (steps, c)
  | e :: es =>
    match e.obstacle? base with
    | some reason => .error (.error (.inapplicable e reason))
    | none =>
      match c.edit (c.liveWith (steps.map Step.form)) base e with
      | (.error stop, _) => .error (stop.map .form)
      | (.ok f, c) => applyEdits c f (⟨e.text, f⟩ :: steps) es

/-- A form under its title. -/
def Step.text (s : Step) : String := lines [s.title ++ " [" ++ s.form.kind.name ++ "]", s.form.text]

/-- The traffic of the caches. -/
def statsText (s : EditStats) : String :=
  "\n" ++ lines ["lookups=" ++ Text.decimal s.lookups ++ " hits=" ++ Text.decimal s.hits ++
    " published=" ++ Text.decimal s.published ++ " lost_races=" ++ Text.decimal s.lostRaces]

/-- Shows the forms that edits derive from the form of a signature. -/
def renderDump (signature : String) (edits : List String) (last stats : Bool) : Rendered := do
  let s ← readSignature signature
  let edits ← edits.mapM readEdit
  let (base, c) ← baseForm (Context.new {}) s
  let (steps, c) ← applyEdits c base [⟨"base " ++ s.text, base⟩] edits
  let shown := if last then steps.take 1 else steps.reverse
  return "\n".intercalate (shown.map Step.text) ++ if stats then statsText c.stats else ""

/-! ## Linkage forms -/

/-- Runs a computation in a world of its own, whose host has no functions. -/
def inNewWorld (act : Act TableState String) : Rendered :=
  match act (World.new {} {} HostTable.start) with
  | (.ok s, _) => .ok s
  | (.error stop, _) => .error (stop.map .runtime)

/-- A form under the type that it is for. -/
def formText (form : Form) (type : Signature) : String :=
  lines [form.kind.name ++ " for " ++ type.text, form.text]

/-- Shows an invoker, or the linker form of call sites. -/
def renderInvoker (signature : String) (generic linker : Bool) : Rendered := do
  let s ← readSignature signature
  inNewWorld do
    if linker then return formText (← Act.linkerForm s generic) s
    else
      let h ← Act.invoker s generic
      return lines ["handle " ++ h.type.text] ++ formText ((← get).currentForm h) s

/-- Why there is no direct handle of a kind and a type: constructors answer their instance, and
instance methods take the receiver first. -/
def directObstacle? (kind : DispatchKind) (s : Signature) : Option String :=
  match kind with
  | .static => none
  | .newSpecial =>
    if s.ret.isReference then none
    else some ("a constructor handle returns its instance, not " ++ s.ret.text)
  | kind =>
    if (s.params.head?.map Ty.isReference).getD false then none
    else some (kindWord kind ++ " handles take the receiver as their first parameter")

/-- Shows the form of a direct handle. -/
def renderDirect (signature : String) (kind : DispatchKind) (barrier : Bool) : Rendered := do
  let s ← readSignature signature
  match directObstacle? kind s with
  | some reason => throw (.error (.unsupported reason))
  | none => inNewWorld do return formText (← Act.directForm s kind barrier) s

/-! ## Erasure -/

open Text (decimal) in
/-- Shows the erasure of a signature. -/
def renderErase (signature : String) : Rendered := do
  let s ← readSignature signature
  let t := ((Context.new {} : Context Empty).typeForm s).1
  let c := t.counts
  let sizes (count slots primitive long : Nat) := decimal count ++ " (" ++ decimal slots ++
    " slots, " ++ decimal primitive ++ " primitive, " ++ decimal long ++ " long)"
  return lines
    ["type:       " ++ s.text,
      "erased:     " ++ t.erased.text,
      "basic:      " ++ t.basic.text,
      "descriptor: " ++ t.basic.letters,
      "parameters: " ++
        sizes c.parameters c.parameterSlots c.primitiveParameters c.longParameters,
      "returns:    " ++ sizes c.returns c.returnSlots c.primitiveReturns c.longReturns]

/-- The whole output of a command. -/
def Command.render : Command → Rendered
  | dump signature edits last stats => renderDump signature edits last stats
  | invoker signature generic linker => renderInvoker signature generic linker
  | direct signature kind barrier => renderDirect signature kind barrier
  | erase signature => renderErase signature

end HandleForms.Cli
