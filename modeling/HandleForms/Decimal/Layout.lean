import HandleForms.Decimal.Shortest
import HandleForms.Text.Index

/-!
# Writing and reading decimals

`Layout` holds the decisions of one way of writing a decimal; `numberLayout` is the one that dumps,
traces and value texts use. `read?` accepts the usual decimal notation, with an optional exponent,
and the names of infinity and NaN, and rounds to the nearest number.
-/

namespace HandleForms.Decimal

/-- Which decimals are written without an exponent: those whose leading digit stands at a power of
ten from `least` on and below `below`. -/
structure Layout where
  least : Int
  below : Int

/-- Numbers are written positionally from `0.0001` on and below `10 ^ 16`. -/
def numberLayout : Layout := ⟨-4, 16⟩

/-- The digits of a number as characters. -/
def digitChars (n : Nat) : List Char := Nat.toDigits 10 n

/-- Positional notation: a point always has digits on both sides. -/
def positional (ds : List Char) (top : Int) : List Char :=
  if top < 0 then '0' :: '.' :: (List.replicate (top.natAbs - 1) '0' ++ ds)
  else
    let whole := top.natAbs + 1
    if ds.length ≤ whole then ds ++ List.replicate (whole - ds.length) '0' ++ ['.', '0']
    else ds.take whole ++ '.' :: ds.drop whole

/-- The digits of an integer, with a minus sign when it is negative. -/
def integerChars (n : Int) : List Char :=
  if n < 0 then '-' :: digitChars n.natAbs else digitChars n.natAbs

/-- Exponent notation: a point only where digits follow the first one. -/
def scientific (ds : List Char) (top : Int) : List Char :=
  (match ds with
    | [] => []
    | [d] => [d]
    | d :: rest => d :: '.' :: rest) ++ 'e' :: integerChars top

/-- A positive decimal in a layout. -/
def Positive.chars (l : Layout) (p : Positive) : List Char :=
  let ds := digitChars p.digits
  let top := p.exponent + (ds.length : Int) - 1
  if l.least ≤ top ∧ top < l.below then positional ds top else scientific ds top

/-- A number in a layout. -/
def text {f : Binary.Format} (l : Layout) (x : Binary f) : String :=
  if x.isNaN then "NaN"
  else
    let sign := if x.negative then ['-'] else []
    let body :=
      if x.isInfinite then ['i', 'n', 'f']
      else if x.isZero then ['0', '.', '0']
      else (shortest x).chars l
    String.ofList (sign ++ body)

/-! ## Reading -/

/-- The number nearest to `digits * 10 ^ exponent`. Exponents far outside the format are answered
without computing the power. -/
def round (f : Binary.Format) (negative : Bool) (digits : Nat) (exponent : Int) : Binary f :=
  if digits = 0 then Binary.ofFields f negative 0 0
  else
    let top := exponent + (width digits : Int)
    if 400 < top then Binary.infinity f negative
    else if top < -400 then Binary.ofFields f negative 0 0
    else if exponent < 0 then Binary.ofRatio f negative digits (Nat.pow 10 exponent.natAbs)
    else Binary.ofRatio f negative (digits * Nat.pow 10 exponent.natAbs) 1

/-- What follows the digits: nothing, or an exponent. -/
def exponent? : List Char → Option Int
  | [] => some 0
  | c :: cs => if c = 'e' ∨ c = 'E' then Text.integer? cs else none

/-- Decimal notation without a sign. -/
def unsigned? (f : Binary.Format) (negative : Bool) (cs : List Char) : Option (Binary f) :=
  let whole := cs.takeWhile Char.isDigit
  let rest := cs.dropWhile Char.isDigit
  let (fraction, rest) := match rest with
    | '.' :: tail => (tail.takeWhile Char.isDigit, tail.dropWhile Char.isDigit)
    | _ => ([], rest)
  match Text.digits? (whole ++ fraction), exponent? rest with
  | some digits, some exponent => some (round f negative digits (exponent - fraction.length))
  | _, _ => none

/-- Reads a number. -/
def read? (f : Binary.Format) (s : String) : Option (Binary f) :=
  let (negative, cs) := match s.toList with
    | '-' :: cs => (true, cs)
    | '+' :: cs => (false, cs)
    | cs => (false, cs)
  let word := cs.map Char.toLower
  if word = ['i', 'n', 'f'] ∨ word = ['i', 'n', 'f', 'i', 'n', 'i', 't', 'y'] then
    some (Binary.infinity f negative)
  else if word = ['n', 'a', 'n'] then some (Binary.nan f negative)
  else unsigned? f negative cs

end HandleForms.Decimal
