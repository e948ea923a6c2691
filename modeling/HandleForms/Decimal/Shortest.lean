import HandleForms.Binary

/-!
# The shortest decimal of a binary number

Of all decimals that read back as the number, the shortest is one with the fewest digits, and of
those the one nearest to the number; an exact tie goes up. The reals that read back as the number
form an interval whose ends belong to it iff the significand is even. For one digit, two digits and
so on, the two points of that decimal grid next to the number are tested in exact arithmetic.
-/

namespace HandleForms.Decimal

/-- The positive decimal `digits * 10 ^ exponent`. -/
structure Positive where
  digits : Nat
  exponent : Int
  deriving DecidableEq, Repr

/-- A positive number with the ends of the interval that reads back as it, over one denominator. -/
structure Interval where
  low : Nat
  value : Nat
  high : Nat
  den : Nat
  /-- Whether the ends belong to the interval. -/
  closed : Bool

/-- The interval of a finite number other than zero, its sign left out. -/
def Interval.of {f : Binary.Format} (x : Binary f) : Interval :=
  let m := x.significand
  let atStep := x.fraction.toNat == 0 && 1 < x.exponent.toNat
  let low := if atStep then 4 * m - 1 else 4 * m - 2
  let scale := x.scale - 2
  let up := if scale < 0 then 1 else 1 <<< scale.natAbs
  let den := if scale < 0 then 1 <<< scale.natAbs else 1
  ⟨low * up, 4 * m * up, (4 * m + 2) * up, den, m % 2 == 0⟩

/-- How many decimal digits a natural number has. -/
def width (n : Nat) : Nat := (Nat.toDigits 10 n).length

/-- The exponent of the greatest power of ten that is at most `num / den`. -/
def leading (num den : Nat) : Int :=
  if den ≤ num then (width (num / den) : Int) - 1
  else -(width ((den + num - 1) / num - 1) : Int)

/-- The better of the two neighbours on the grid of multiples of `10 ^ exponent`, if one of them
lies in the interval. -/
def Interval.onGrid (i : Interval) (exponent : Int) : Option Nat :=
  let s := if exponent < 0 then Nat.pow 10 exponent.natAbs else 1
  let t := if exponent < 0 then i.den else i.den * Nat.pow 10 exponent.natAbs
  let d := i.value * s / t
  let r := i.value * s % t
  let below := if i.closed then i.low * s ≤ d * t else i.low * s < d * t
  let above := if i.closed then (d + 1) * t ≤ i.high * s else (d + 1) * t < i.high * s
  if above ∧ (¬ below ∨ t ≤ 2 * r) then some (d + 1)
  else if below then some d
  else none

/-- Moves the zeros at the end of the digits into the exponent; `fuel` bounds their number. -/
def Positive.reduce : Nat → Positive → Positive
  | 0, p => p
  | fuel + 1, p =>
    if p.digits % 10 = 0 ∧ p.digits ≠ 0 then reduce fuel ⟨p.digits / 10, p.exponent + 1⟩ else p

/-- The first grid with a hit, from `n` digits on. -/
def Interval.search (i : Interval) (top : Int) : Nat → Nat → Positive
  | 0, n => ⟨i.value * Nat.pow 10 n / i.den, -(n : Int)⟩
  | more + 1, n =>
    let exponent := top - (n : Int) + 1
    match i.onGrid exponent with
    | some digits => Positive.reduce (n + 1) ⟨digits, exponent⟩
    | none => i.search top more (n + 1)

/-- The shortest decimal of a finite number other than zero, its sign left out. Seventeen digits
are enough for every number of 64 bits. -/
def shortest {f : Binary.Format} (x : Binary f) : Positive :=
  let i := Interval.of x
  i.search (leading i.value i.den) 17 1

end HandleForms.Decimal
