/-!
# Binary floating-point numbers

A number of a binary interchange format is its three fields: sign, biased exponent and fraction. The
library never computes with such numbers; it reads them, compares them, passes them on and prints
them. `Binary.ofRatio` rounds a ratio of naturals to the nearest number of the format, ties to the
even significand, and `Binary.same` is the comparison of numbers, under which no NaN equals anything
and the two zeros are equal.
-/

namespace HandleForms

/-- A binary interchange format, by the widths of two of its fields. -/
structure Binary.Format where
  fractionBits : Nat
  exponentBits : Nat
  deriving DecidableEq, Repr

namespace Binary.Format

/-- The format of 32 bits. -/
def single : Format := ⟨23, 8⟩

/-- The format of 64 bits. -/
def double : Format := ⟨52, 11⟩

/-- The exponent field of infinities and NaNs. -/
def topExponent (f : Format) : Nat := (1 <<< f.exponentBits) - 1

/-- The least power of two that is a unit of some significand. -/
def leastScale (f : Format) : Int := 2 - (1 <<< (f.exponentBits - 1) : Nat) - f.fractionBits

end Binary.Format

/-- A number of the format `f`. -/
structure Binary (f : Binary.Format) where
  negative : Bool
  exponent : BitVec f.exponentBits
  fraction : BitVec f.fractionBits
  deriving DecidableEq, Repr

/-- A number of 32 bits. -/
abbrev Single := Binary Binary.Format.single

/-- A number of 64 bits. -/
abbrev Double := Binary Binary.Format.double

namespace Binary

variable {f : Format}

/-- The number with these fields, each cut to its width. -/
def ofFields (f : Format) (negative : Bool) (exponent fraction : Nat) : Binary f :=
  ⟨negative, BitVec.ofNat _ exponent, BitVec.ofNat _ fraction⟩

/-- Positive zero. -/
def zero (f : Format) : Binary f := ofFields f false 0 0

/-- An infinity. -/
def infinity (f : Format) (negative : Bool) : Binary f := ofFields f negative f.topExponent 0

/-- A quiet NaN. -/
def nan (f : Format) (negative : Bool) : Binary f :=
  ofFields f negative f.topExponent (1 <<< (f.fractionBits - 1))

instance : Inhabited (Binary f) := ⟨zero f⟩

def isNaN (x : Binary f) : Bool := x.exponent.toNat == f.topExponent && x.fraction.toNat != 0

def isInfinite (x : Binary f) : Bool := x.exponent.toNat == f.topExponent && x.fraction.toNat == 0

def isZero (x : Binary f) : Bool := x.exponent.toNat == 0 && x.fraction.toNat == 0

/-- The significand as a natural number; the magnitude is `significand * 2 ^ scale`. -/
def significand (x : Binary f) : Nat :=
  if x.exponent.toNat = 0 then x.fraction.toNat else x.fraction.toNat + (1 <<< f.fractionBits)

/-- The power of two that the significand counts. -/
def scale (x : Binary f) : Int := f.leastScale + (x.exponent.toNat - 1 : Nat)

/-- Whether two numbers compare equal. -/
def same (x y : Binary f) : Bool :=
  !x.isNaN && !y.isNaN && (x == y || (x.isZero && y.isZero))

/-! ## Rounding a ratio -/

/-- The natural number nearest to `num / den`; a tie goes to the even one. -/
def nearestEven (num den : Nat) : Nat :=
  let q := num / den
  let r := num % den
  if 2 * r > den || (2 * r == den && q % 2 == 1) then q + 1 else q

/-- `num / den` in units of `2 ^ scale`, as a ratio. -/
def inUnits (num den : Nat) (scale : Int) : Nat × Nat :=
  if scale < 0 then (num <<< scale.natAbs, den) else (num, den <<< scale.natAbs)

/-- The number of the format whose significand and scale are given; too large a scale gives an
infinity. -/
def ofSignificand (f : Format) (negative : Bool) (m : Nat) (scale : Int) : Binary f :=
  if m < 1 <<< f.fractionBits then ofFields f negative 0 m
  else
    let exponent := (scale - f.leastScale + 1).toNat
    if f.topExponent ≤ exponent then infinity f negative
    else ofFields f negative exponent (m - (1 <<< f.fractionBits))

/-- The number nearest to `num / den`. -/
def ofRatio (f : Format) (negative : Bool) (num den : Nat) : Binary f :=
  if num = 0 then ofFields f negative 0 0
  else
    let precision := f.fractionBits + 1
    let guess : Int := max ((num.log2 : Int) - den.log2 - precision) f.leastScale
    let (n, d) := inUnits num den guess
    let scale := if n / d < 1 <<< precision then guess else guess + 1
    let (n, d) := inUnits num den scale
    let m := nearestEven n d
    if m < 1 <<< precision then ofSignificand f negative m scale
    else ofSignificand f negative (m / 2) (scale + 1)

end Binary

end HandleForms
