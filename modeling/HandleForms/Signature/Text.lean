import HandleForms.Signature
import HandleForms.Text.Index
import HandleForms.Text.Split
import HandleForms.Ty.Text

/-!
# Written signatures

A signature is written `(Object,int)String`: words between commas, then the word of the result. It
is also read from shorthand, `(LI)L`, one descriptor after the other. A parameter list with a comma
is a list of words; one without is shorthand if every character can occur in a descriptor, and one
word otherwise.
-/

namespace HandleForms.Signature

/-- A signature as readable words. -/
def chars (s : Signature) : List Char :=
  '(' :: (Text.join [','] (s.params.map Ty.chars) ++ ')' :: s.ret.chars)

/-- A signature as readable words. -/
def text (s : Signature) : String := String.ofList s.chars

instance : ToString Signature := ⟨text⟩

/-- The basic type letters of the parameters and the result, `LIL`. -/
def letters (s : Signature) : String :=
  String.ofList (s.basicParams.map BasicType.letter ++ [s.basicRet.letter])

/-- The shorthand `(LI)L` over basic types. -/
def shorthand (s : Signature) : String :=
  String.ofList
    ('(' :: (s.basicParams.map BasicType.letter ++ [')', s.basicRet.letter]))

/-! ## Reading -/

/-- The characters that shorthand consists of. -/
def isDescriptorChar (c : Char) : Bool := "LVZBSCIJFD[".toList.contains c

/-- Reads descriptors one after the other; `open_` holds the brackets read since the last one, and
none may be left at the end. -/
def descriptors? (open_ : List Char) : List Char → Option (List Ty)
  | [] => if open_.isEmpty then some [] else none
  | '[' :: rest => descriptors? ('[' :: open_) rest
  | c :: rest =>
    match Ty.ofDescriptor? (open_ ++ [c]), descriptors? [] rest with
    | some t, some ts => some (t :: ts)
    | _, _ => none

/-- Reads a parameter list. -/
def params? (cs : List Char) : Option (List Ty) :=
  let list := Text.trim cs
  if list.isEmpty then some []
  else if list.contains ',' then (Text.splitAll ',' list).mapM Ty.ofWord?
  else if list.all isDescriptorChar then descriptors? [] list
  else (Ty.ofWord? list).map ([·])

/-- What a text lacks to be a signature, and the types when it lacks nothing. -/
def types? (cs : List Char) : Except String (List Ty × Ty) :=
  match Text.trim cs with
  | '(' :: inner =>
    match Text.splitOnce ')' inner with
    | none => .error "expected `)`"
    | some (list, rest) =>
      match params? list with
      | none => .error "bad parameter list"
      | some params =>
        match Ty.ofChars? (Text.trim rest) with
        | none => .error "bad return type"
        | some ret => .ok (params, ret)
  | _ => .error "expected `(`"

/-- Reads a signature. -/
def parse (input : String) : Except SignatureError Signature :=
  match types? input.toList with
  | .error reason => .error (.unreadable input reason)
  | .ok (params, ret) => ofTypes ret params

end Signature

/-- The text of an excess of slots, which several layers report. -/
def tooManySlotsText (slots limit : Nat) : String :=
  "too many arguments: " ++ Text.decimal slots ++ " slots exceeds the limit of " ++
    Text.decimal limit

/-- The name of the kind of a signature error. -/
def SignatureError.kind : SignatureError → String
  | .tooManySlots _ _ => "TooManyArguments"
  | .voidParameter _ => "VoidParameter"
  | .unreadable _ _ => "Parse"

/-- The name of the kind of an error that is caused by another one. -/
def causedBy (kind cause : String) : String := kind ++ "(" ++ cause ++ ")"

/-- The text of a signature error. -/
def SignatureError.message : SignatureError → String
  | .tooManySlots slots limit => tooManySlotsText slots limit
  | .voidParameter index => "parameter " ++ Text.decimal index ++ " has type void"
  | .unreadable input reason => "cannot parse signature `" ++ input ++ "`: " ++ reason

end HandleForms
