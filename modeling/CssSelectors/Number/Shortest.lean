import CssSelectors.Number.Binary64

/-!
# Shortest decimals

The fewest decimal digits that read back as a given double: the decimal on the
coarsest power-of-ten grid that has a point among the reals rounding to it, and on
that grid the point nearest to it.
-/

namespace CssSelectors

structure Decimal where
  digits : Nat
  exponent : Int
deriving DecidableEq, Repr

namespace Decimal

inductive Tie
  | up
  | toEven
deriving DecidableEq, Repr

/-- The reals that round to a magnitude, in quarters of the unit `2 ^ -1074`. -/
structure RoundingInterval where
  low : Nat
  value : Nat
  high : Nat
  closed : Bool
deriving DecidableEq, Repr

/-- The interval ends halfway to the two neighbours, of which the lower one is nearer
below a power of two. A halfway point rounds to an even significand. -/
def RoundingInterval.ofMagnitude (magnitude : Nat) : RoundingInterval :=
  let significand := Binary64.significand magnitude
  let unit := Nat.pow 2 (Binary64.scale magnitude)
  let below := if significand = Binary64.fractionCount && 0 < Binary64.scale magnitude then
    unit else 2 * unit
  { low := 4 * significand * unit - below
    value := 4 * significand * unit
    high := 4 * significand * unit + 2 * unit
    closed := significand % 2 = 0 }

def RoundingInterval.contains (interval : RoundingInterval) (point scale : Nat) : Bool :=
  if interval.closed then interval.low * scale ≤ point && point ≤ interval.high * scale
  else interval.low * scale < point && point < interval.high * scale

/-- The point of the grid of multiples of `10 ^ exponent` that lies in the interval and
is nearest to its value, if one lies in it at all. -/
def RoundingInterval.gridPoint? (interval : RoundingInterval) (tie : Tie) (exponent : Int) :
    Option Nat :=
  let step := Nat.pow 2 1076 * Nat.pow 10 exponent.toNat
  let scale := Nat.pow 10 (-exponent).toNat
  let value := interval.value * scale
  let lower := value / step
  let upper := lower + 1
  match interval.contains (lower * step) scale, interval.contains (upper * step) scale with
  | false, false => none
  | true, false => some lower
  | false, true => some upper
  | true, true =>
    let toLower := value - lower * step
    let toUpper := upper * step - value
    if toLower < toUpper then some lower
    else if toUpper < toLower then some upper
    else match tie with
      | .up => some upper
      | .toEven => some (if lower % 2 = 0 then lower else upper)

/-- The first grid with a point in the interval, from `10 ^ (count - 324)` downwards. -/
def RoundingInterval.coarsest (interval : RoundingInterval) (tie : Tie) : Nat → Decimal
  | 0 => ⟨(interval.gridPoint? tie (-324)).getD 0, -324⟩
  | count + 1 =>
    let exponent : Int := (count + 1 : Nat) - 324
    match interval.gridPoint? tie exponent with
    | some digits => ⟨digits, exponent⟩
    | none => interval.coarsest tie count

/-- The shortest decimal that reads back as the given finite magnitude, zero apart. -/
def shortest (tie : Tie) (magnitude : Nat) : Decimal :=
  (RoundingInterval.ofMagnitude magnitude).coarsest tie 633

end Decimal

end CssSelectors
