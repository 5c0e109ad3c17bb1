/-!
# Double precision numbers

A double as a sign and the 63 bits below it, biased exponent first. Read as a
natural number those bits are ordered like the magnitudes they stand for, and
every finite magnitude is a whole number of units of `2 ^ -1074`, so rounding is
a matter of natural number arithmetic.
-/

namespace CssSelectors

structure Binary64 where
  negative : Bool
  magnitude : BitVec 63
deriving DecidableEq, Repr

namespace Binary64

def ofBits (bits : BitVec 64) : Binary64 :=
  ⟨bits.msb, bits.setWidth 63⟩

def toBits (x : Binary64) : BitVec 64 :=
  BitVec.cons x.negative x.magnitude

def fractionCount : Nat := Nat.pow 2 52

def infinity : Nat := 2047 * fractionCount

def isNaN (x : Binary64) : Bool :=
  infinity < x.magnitude.toNat

def isInfinite (x : Binary64) : Bool :=
  x.magnitude.toNat = infinity

def isFinite (x : Binary64) : Bool :=
  x.magnitude.toNat < infinity

def isZero (x : Binary64) : Bool :=
  x.magnitude.toNat = 0

/-- At least zero. Both zeros are; what is no number is not. -/
def isNonnegative (x : Binary64) : Bool :=
  !x.isNaN && (!x.negative || x.isZero)

/-- The factor of a finite magnitude beside its power of two, including the leading
one that normal numbers do not store. -/
def significand (magnitude : Nat) : Nat :=
  if magnitude < fractionCount then magnitude
  else fractionCount + magnitude % fractionCount

/-- The power of two, counted from `-1074`, that the significand is multiplied by. -/
def scale (magnitude : Nat) : Nat :=
  magnitude / fractionCount - 1

def roundToEven (numerator denominator : Nat) : Nat :=
  let quotient := numerator / denominator
  let twice := 2 * (numerator % denominator)
  if denominator < twice || (twice = denominator && quotient % 2 = 1) then quotient + 1
  else quotient

/-- The magnitude nearest to `numerator / denominator` units of `2 ^ -1074`. The
significand keeps 53 bits; one that rounds up to a 54th carries into the exponent,
and past the largest exponent into infinity. -/
def nearestMagnitude (numerator denominator : Nat) : Nat :=
  let shift := (numerator / denominator).log2 - 52
  let rounded := roundToEven numerator (denominator * Nat.pow 2 shift)
  min (shift * fractionCount + rounded) infinity

/-- The magnitude nearest to `digits * 10 ^ exponent`. Exponents so large or so small
that only the bit length of `digits` matters are settled without writing the power. -/
def decimalMagnitude (digits : Nat) (exponent : Int) : Nat :=
  match exponent with
  | .ofNat e =>
    if digits = 0 then 0
    else if 1024 ≤ digits.log2 + 3 * e then infinity
    else nearestMagnitude (digits * Nat.pow 10 e * Nat.pow 2 1074) 1
  | .negSucc e =>
    if digits.log2 + 1076 < 3 * (e + 1) then 0
    else nearestMagnitude (digits * Nat.pow 2 1074) (Nat.pow 10 (e + 1))

def ofDecimal (negative : Bool) (digits : Nat) (exponent : Int) : Binary64 :=
  ⟨negative, BitVec.ofNat 63 (decimalMagnitude digits exponent)⟩

def ofInt (i : Int) : Binary64 :=
  ofDecimal (i < 0) i.natAbs 0

end Binary64

end CssSelectors
