import HandleForms.Ty
import HandleForms.Text.Alphanumeric
import HandleForms.Text.Blank

/-!
# Type names

A type has two written forms. A *word* is readable: `int`, `Object`, `String[]`. A *descriptor* is
one letter, with one `[` in front for every array level. Dumps write words; signatures and edits
read both.
-/

namespace HandleForms.Ty

/-- A type as a word. -/
def chars : Ty → List Char
  | void => ['v', 'o', 'i', 'd']
  | boolean => ['b', 'o', 'o', 'l', 'e', 'a', 'n']
  | byte => ['b', 'y', 't', 'e']
  | short => ['s', 'h', 'o', 'r', 't']
  | char => ['c', 'h', 'a', 'r']
  | int => ['i', 'n', 't']
  | long => ['l', 'o', 'n', 'g']
  | float => ['f', 'l', 'o', 'a', 't']
  | double => ['d', 'o', 'u', 'b', 'l', 'e']
  | cls name => name.toList
  | array element => element.chars ++ ['[', ']']

/-- A type as a word. -/
def text (t : Ty) : String := String.ofList t.chars

instance : ToString Ty := ⟨text⟩

/-- The array type over an element type; there are no arrays of `void`. -/
def arrayOf? (element : Ty) : Option Ty := if element.isVoid then none else some (array element)

/-- What stands before a pair of brackets at the end of a word. -/
def beforeBrackets? (w : List Char) : Option (List Char) :=
  match w.reverse with
  | ']' :: '[' :: stem => some stem.reverse
  | _ => none

theorem beforeBrackets?_eq_some {w stem : List Char} (h : beforeBrackets? w = some stem) :
    w = stem ++ ['[', ']'] := by
  unfold beforeBrackets? at h
  split at h
  · next r hr =>
    have := congrArg List.reverse hr
    simp at this h
    simp [this, ← h]
  · simp at h

/-- A character that can stand in a class name. -/
def isNameChar (c : Char) : Bool := Text.isAlphanumeric c || c == '_' || c == '.'

/-- A word without brackets and blanks. -/
def ofPlainWord? (w : List Char) : Option Ty :=
  if w = void.chars then some void
  else if w = boolean.chars then some boolean
  else if w = byte.chars then some byte
  else if w = short.chars then some short
  else if w = char.chars then some char
  else if w = int.chars then some int
  else if w = long.chars then some long
  else if w = float.chars then some float
  else if w = double.chars then some double
  else if w.all isNameChar then some (cls (String.ofList w))
  else none

/-- Reads a word. Blanks may stand around the name and before each pair of brackets. -/
def ofWord? (cs : List Char) : Option Ty :=
  let w := Text.trim cs
  if w.isEmpty then none
  else match h : beforeBrackets? w with
    | some stem =>
      have : stem.length < cs.length := by
        have hl := congrArg List.length (beforeBrackets?_eq_some h)
        have ht := Text.length_trim_le cs
        simp at hl
        have hw : w.length = (Text.trim cs).length := rfl
        omega
      (ofWord? stem).bind arrayOf?
    | none => ofPlainWord? w
termination_by cs.length

/-- Reads one descriptor letter. -/
def ofLetter? : Char → Option Ty
  | 'L' => some object
  | 'V' => some void
  | 'Z' => some boolean
  | 'B' => some byte
  | 'S' => some short
  | 'C' => some char
  | 'I' => some int
  | 'J' => some long
  | 'F' => some float
  | 'D' => some double
  | _ => none

/-- Reads a descriptor. -/
def ofDescriptor? : List Char → Option Ty
  | '[' :: rest => (ofDescriptor? rest).bind arrayOf?
  | [c] => ofLetter? c
  | _ => none

/-- Reads a descriptor or, failing that, a word. -/
def ofChars? (cs : List Char) : Option Ty := (ofDescriptor? cs).or (ofWord? cs)

end HandleForms.Ty
