import HandleForms.Decimal.Layout
import HandleForms.Signature.Text
import HandleForms.Text.Quoted

/-!
# Constants

The literal operands of expressions. `Constant.same` is the comparison of operands: numbers compare
as numbers do, everything else by content.
-/

namespace HandleForms

/-- A literal operand. -/
inductive Constant where
  | null
  | int (value : Int32)
  | long (value : Int64)
  | float (value : Single)
  | double (value : Double)
  | str (value : String)
  | signature (value : Signature)
  /-- A class, by its name. -/
  | cls (name : String)
  deriving DecidableEq

namespace Constant

/-- An `int`, if the number is one. -/
def ofInt? (n : Int) : Option Constant :=
  if n = (Int32.ofInt n).toInt then some (int (Int32.ofInt n)) else none

/-- A `long`, if the number is one. -/
def ofLong? (n : Int) : Option Constant :=
  if n = (Int64.ofInt n).toInt then some (long (Int64.ofInt n)) else none

/-- The basic type of a constant. -/
def basicType : Constant → BasicType
  | int _ => .int
  | long _ => .long
  | float _ => .float
  | double _ => .double
  | null | str _ | signature _ | cls _ => .ref

/-- Whether two constants are the same operand. -/
def same : Constant → Constant → Bool
  | float a, float b => a.same b
  | double a, double b => a.same b
  | a, b => a == b

/-- A constant as dumps write it. -/
def text : Constant → String
  | null => "null"
  | int v => toString v.toInt
  | long v => toString v.toInt ++ "L"
  | float v => Decimal.text Decimal.numberLayout v ++ "F"
  | double v => Decimal.text Decimal.numberLayout v ++ "D"
  | str s => Text.quoted s
  | signature s => s.text
  | cls name => name ++ ".class"

end Constant

end HandleForms
