/-!
# Basic types: the erased alphabet of the calling convention

Every value that flows through a form has one of six basic types. Five of them can be passed as an
argument; `void` is only a result. The ordinals are small and stable because edit keys contain them,
and the letters are what dumps, species keys and shorthand signatures are written in.
-/

namespace HandleForms

/-- The basic type of a name in a form. -/
inductive BasicType where
  /-- Any reference. -/
  | ref
  /-- `int` and every primitive narrower than it. -/
  | int
  | long
  | float
  | double
  /-- No value; only valid as a result. -/
  | void
  deriving DecidableEq, Repr, Inhabited

namespace BasicType

/-- All basic types, in the order of their ordinals. -/
def all : List BasicType := [ref, int, long, float, double, void]

/-- The position of a basic type in `all`. -/
def ordinal : BasicType → Nat
  | ref => 0
  | int => 1
  | long => 2
  | float => 3
  | double => 4
  | void => 5

/-- The number of basic types; edit keys number the narrow array elements from here. -/
def count : Nat := all.length

/-- The basic type with this ordinal. -/
def ofOrdinal? (n : Nat) : Option BasicType := all[n]?

theorem ofOrdinal?_ordinal (t : BasicType) : ofOrdinal? t.ordinal = some t := by
  cases t <;> rfl

theorem ordinal_inj {s t : BasicType} (h : s.ordinal = t.ordinal) : s = t := by
  have := congrArg ofOrdinal? h
  simpa [ofOrdinal?_ordinal] using this

theorem ordinal_lt_count (t : BasicType) : t.ordinal < count := by
  cases t <;> decide

/-! ## Letters -/

/-- The letter a basic type is written with. -/
def letter : BasicType → Char
  | ref => 'L'
  | int => 'I'
  | long => 'J'
  | float => 'F'
  | double => 'D'
  | void => 'V'

/-- Reads a letter; the letters of the narrow primitives (`Z`, `B`, `S`, `C`) read as `int`. -/
def ofLetter? : Char → Option BasicType
  | 'L' => some ref
  | 'I' | 'Z' | 'B' | 'S' | 'C' => some int
  | 'J' => some long
  | 'F' => some float
  | 'D' => some double
  | 'V' => some void
  | _ => none

theorem ofLetter?_letter (t : BasicType) : ofLetter? t.letter = some t := by
  cases t <;> rfl

theorem letter_inj {s t : BasicType} (h : s.letter = t.letter) : s = t := by
  have := congrArg ofLetter? h
  simpa [ofLetter?_letter] using this

/-- A list of basic types as letters, such as `LLI`. -/
def letters (ts : List BasicType) : String := String.ofList (ts.map letter)

/-- Reads a string of letters; one unknown letter refuses the whole string. -/
def ofLetters? (s : String) : Option (List BasicType) := s.toList.mapM ofLetter?

/-! ## Size and use -/

/-- Interpreter slots taken by a value: two when it is double-width, none when there is no value. -/
def slots : BasicType → Nat
  | long | double => 2
  | void => 0
  | _ => 1

/-- Whether a value takes two slots. -/
def isDoubleWidth (t : BasicType) : Bool := t.slots == 2

/-- Whether a parameter can have this type. -/
def isArg (t : BasicType) : Bool := t != void

/-- The slots of a parameter list. -/
def slotSum : List BasicType → Nat
  | [] => 0
  | t :: ts => t.slots + slotSum ts

@[simp] theorem slotSum_nil : slotSum [] = 0 := rfl

@[simp] theorem slotSum_cons (t : BasicType) (ts : List BasicType) :
    slotSum (t :: ts) = t.slots + slotSum ts := rfl

@[simp] theorem slotSum_append (ss ts : List BasicType) :
    slotSum (ss ++ ts) = slotSum ss + slotSum ts := by
  induction ss with
  | nil => simp
  | cons s ss ih => simp [ih, Nat.add_assoc]

theorem slotSum_perm {ss ts : List BasicType} (h : ss.Perm ts) : slotSum ss = slotSum ts := by
  induction h with
  | nil => rfl
  | cons _ _ ih => simp [ih]
  | swap => simp [Nat.add_left_comm]
  | trans _ _ ih₁ ih₂ => exact ih₁.trans ih₂

end BasicType

end HandleForms
