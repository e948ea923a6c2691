import HandleForms.Text.Blank

/-!
# Positions and counts in a text

A position or count is read as a 64-bit natural number: blanks around it are ignored, one plus sign
may stand in front, and a number that does not fit in 64 bits is refused.
-/

namespace HandleForms.Text

/-- The number of values a machine word has. -/
def wordCount : Nat := UInt64.size

/-- Addition of positions on a 64-bit machine. -/
def wordAdd (a b : Nat) : Nat := (a + b) % wordCount

theorem wordAdd_of_lt {a b : Nat} (h : a + b < wordCount) : wordAdd a b = a + b :=
  Nat.mod_eq_of_lt h

/-- The value of a list of decimal digits after the value `acc`; one other character refuses it. -/
def digitsFrom? (acc : Nat) : List Char → Option Nat
  | [] => some acc
  | c :: cs => if c.isDigit then digitsFrom? (acc * 10 + (c.toNat - '0'.toNat)) cs else none

/-- A non-empty list of decimal digits. -/
def digits? : List Char → Option Nat
  | [] => none
  | cs => digitsFrom? 0 cs

/-- A natural number with at most one plus sign in front. -/
def natural? : List Char → Option Nat
  | '+' :: cs => digits? cs
  | cs => digits? cs

/-- An integer with at most one sign in front. -/
def integer? : List Char → Option Int
  | '-' :: cs => (digits? cs).map fun n => -(n : Int)
  | cs => (natural? cs).map fun n => (n : Int)

/-- A position or count. -/
def index? (cs : List Char) : Option Nat :=
  (natural? (trim cs)).filter (· < wordCount)

/-- The decimal digits of a number. -/
def decimal (n : Nat) : String := String.ofList (Nat.toDigits 10 n)

end HandleForms.Text
