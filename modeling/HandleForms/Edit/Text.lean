import HandleForms.Edit.Basic

/-!
# Edits as texts

An edit is written as the name of an operation and its operands, all between colons: `bind:1:L`,
`spread:2:int:3`, `permute:1,0`. Positions count the parameters of the form, so position 0 is the
handle itself; basic types are written as letters and read from letters and type names. `Edit.text`
writes the canonical text and `Edit.ofText` reads any.
-/

namespace HandleForms.Edit

/-! ## Writing -/

/-- Numbers between commas. -/
def indexList (ns : List Nat) : String := ",".intercalate (ns.map Text.decimal)

/-- An operation and its operands. -/
def operation (name : String) (operands : List String) : String :=
  ":".intercalate (name :: operands)

open Text (decimal) in
/-- The canonical text of an edit. -/
def text : Edit → String
  | bind pos type => operation "bind" [decimal pos, type.letter.toString]
  | add pos type => operation "add" [decimal pos, type.letter.toString]
  | dup src dst => operation "dup" [decimal src, decimal dst]
  | spread pos array count =>
    operation "spread" [decimal pos, (array.component?.getD array).text, decimal count]
  | filter pos type => operation "filter" [decimal pos, type.letter.toString]
  | collect pos collector => operation "collect" [decimal pos, collector.text]
  | fold pos drop combiner =>
    operation (if drop then "fold-void" else "fold") [decimal pos, combiner.text]
  | filterReturn type => operation "ret" [type.letter.toString]
  | zeroReturn type => operation "zero" [type.letter.toString]
  | permute _ reorder => operation "permute" [indexList reorder]

/-! ## Reading -/

/-- Why a text is no edit. -/
inductive TextDefect where
  | noOperands
  | unknownOperation
  | noPosition
  | position
  | type
  | noCount
  | elementType
  | count
  | indexes
  | signature (e : SignatureError)
  deriving DecidableEq

/-- The description of a defect. -/
def TextDefect.message : TextDefect → String
  | noOperands => "expected OP:OPERANDS"
  | unknownOperation => "unknown operation"
  | noPosition => "expected POS:..."
  | position => "bad position"
  | type => "bad type"
  | noCount => "expected T:N"
  | elementType => "bad element type"
  | count => "bad count"
  | indexes => "bad index list"
  | signature e => e.message

/-- The value, or the defect that its absence is. -/
def orDefect {α : Type} (d : TextDefect) : Option α → Except TextDefect α
  | some a => .ok a
  | none => .error d

/-- A type, written as a descriptor or a word. -/
def readType (cs : List Char) : Option Ty := Ty.ofChars? (Text.trim cs)

/-- The basic type of a type. -/
def readBasic (cs : List Char) : Except TextDefect BasicType :=
  orDefect .type ((readType cs).map Ty.basicType)

/-- A signature. -/
def readSignature (cs : List Char) : Except TextDefect Signature :=
  (Signature.parse (String.ofList cs)).mapError .signature

/-- A position and what follows its colon. -/
def readPosition (cs : List Char) : Except TextDefect (Nat × List Char) := do
  let (pos, rest) ← orDefect .noPosition (Text.splitOnce ':' cs)
  return (← orDefect .position (Text.index? pos), rest)

/-- Positions between commas; a blank text lists none. -/
def readIndexes (cs : List Char) : Except TextDefect (List Nat) :=
  if (Text.trim cs).isEmpty then .ok []
  else orDefect .indexes ((Text.splitAll ',' cs).mapM Text.index?)

/-- An element type and the count after its colon. -/
def readElements (cs : List Char) : Except TextDefect (Ty × Nat) := do
  let (type, count) ← orDefect .noCount (Text.splitOnce ':' cs)
  let array ← orDefect .elementType ((readType type).bind Ty.arrayOf?)
  return (array, ← orDefect .count (Text.index? count))

/-- The operands of a named operation. -/
def ofOperands (name : String) (cs : List Char) : Except TextDefect Edit :=
  match name with
  | "bind" => do
    let (pos, rest) ← readPosition cs
    return bind pos (← readBasic rest)
  | "add" => do
    let (pos, rest) ← readPosition cs
    return add pos (← readBasic rest)
  | "dup" => do
    let (src, rest) ← readPosition cs
    return dup src (← orDefect .position (Text.index? rest))
  | "spread" => do
    let (pos, rest) ← readPosition cs
    let (array, count) ← readElements rest
    return spread pos array count
  | "filter" => do
    let (pos, rest) ← readPosition cs
    return filter pos (← readBasic rest)
  | "collect" => do
    let (pos, rest) ← readPosition cs
    return collect pos (← readSignature rest)
  | "fold" => do
    let (pos, rest) ← readPosition cs
    return fold pos false (← readSignature rest)
  | "fold-void" => do
    let (pos, rest) ← readPosition cs
    return fold pos true (← readSignature rest)
  | "ret" => return filterReturn (← readBasic cs)
  | "zero" => return zeroReturn (← readBasic cs)
  | "permute" => return permute 1 (← readIndexes cs)
  | _ => .error .unknownOperation

/-- Reads an edit. -/
def ofText (s : String) : Except TextDefect Edit := do
  let (name, rest) ← orDefect .noOperands (Text.splitOnce ':' s.toList)
  ofOperands (String.ofList name) rest

/-! ## Applicability -/

open Text (decimal wordAdd) in
/-- Why an edit does not apply to a form, when its positions are out of range. -/
def obstacle? (base : Form) : Edit → Option String
  | bind pos _ =>
    if base.arity ≤ pos then some ("no parameter " ++ decimal pos)
    else if pos = 0 ∧ !((base.species? 0).getD SpeciesTable.top).isTop then
      some "parameter 0 already carries bound values"
    else none
  | add pos type =>
    if pos = 0 ∨ base.arity < pos then some ("position must be in 1..=" ++ decimal base.arity)
    else if type.isArg then none
    else some "cannot add a void parameter"
  | dup src dst =>
    if 0 < src ∧ src < dst ∧ dst < base.arity then none
    else some ("need 0 < SRC < DST < " ++ decimal base.arity)
  | spread pos _ count =>
    if 0 < pos ∧ wordAdd pos count ≤ base.arity then none
    else some (decimal count ++ " parameters from " ++ decimal pos ++ " exceed arity " ++
      decimal base.arity)
  | filter pos type =>
    if pos = 0 ∨ base.arity ≤ pos then some ("position must be in 1.." ++ decimal base.arity)
    else if type.isArg then none
    else some "cannot filter into void"
  | collect pos collector =>
    if 0 < pos ∧ wordAdd pos (resultArity collector.ret.isVoid) ≤ base.arity then none
    else some ("no parameter " ++ decimal pos ++ " to collect into")
  | fold pos _ _ => if pos = 0 then some "cannot fold into the handle" else none
  | filterReturn _ | zeroReturn _ => none
  | permute _ reorder =>
    if reorder.length + 1 ≠ base.arity then
      some ("expected " ++ decimal (base.arity - 1) ++ " indexes, found " ++
        decimal reorder.length)
    else if isPermutation reorder then none
    else some "indexes must be a permutation"

end HandleForms.Edit
