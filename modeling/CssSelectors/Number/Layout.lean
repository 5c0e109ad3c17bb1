import CssSelectors.Number.Shortest

/-!
# Decimal layouts

How the digits of a decimal are written out: with the point in place, or in
scientific notation where a format asks for it.
-/

namespace CssSelectors

namespace Decimal

structure Layout where
  /-- Which of two equally short decimals is written. -/
  tie : Tie
  /-- Whether a point that many digits behind the first one is written in place. -/
  inPlace : Int → Bool
  /-- What follows a whole number that is written in place. -/
  wholeSuffix : String
  /-- What stands before a power of ten that is not negative. -/
  exponentPlus : String

def Layout.plain : Layout :=
  { tie := .up
    inPlace := fun _ => true
    wholeSuffix := ""
    exponentPlus := "" }

/-- Up to sixteen whole digits or four zeros behind the point are written in place, a whole
number shows that it is a decimal, and a power of ten shows its sign. -/
def Layout.exchange : Layout :=
  { tie := .toEven
    inPlace := fun point => -5 < point && point ≤ 16
    wholeSuffix := ".0"
    exponentPlus := "+" }

private def zeros (count : Nat) : String :=
  String.ofList (List.replicate count '0')

def writeInPlace (wholeSuffix : String) (digits : List Char) (point : Int) : String :=
  if point ≤ 0 then
    "0." ++ zeros (-point).toNat ++ String.ofList digits
  else if digits.length ≤ point.toNat then
    String.ofList digits ++ zeros (point.toNat - digits.length) ++ wholeSuffix
  else
    String.ofList (digits.take point.toNat) ++ "." ++ String.ofList (digits.drop point.toNat)

def writeScientific (exponentPlus : String) (digits : List Char) (point : Int) : String :=
  let exponent := "e" ++ (if 1 ≤ point then exponentPlus else "") ++ toString (point - 1)
  match digits with
  | first :: second :: rest =>
    String.ofList [first] ++ "." ++ String.ofList (second :: rest) ++ exponent
  | short => String.ofList short ++ exponent

def write (layout : Layout) (decimal : Decimal) : String :=
  let digits := Nat.toDigits 10 decimal.digits
  let point := digits.length + decimal.exponent
  if layout.inPlace point then writeInPlace layout.wholeSuffix digits point
  else writeScientific layout.exponentPlus digits point

end Decimal

namespace Binary64

def magnitudeText (layout : Decimal.Layout) (x : Binary64) : String :=
  if x.isZero then "0" ++ layout.wholeSuffix
  else if x.isInfinite then "inf"
  else (Decimal.shortest layout.tie x.magnitude.toNat).write layout

/-- The text of a number: the fewest digits that read back, after a minus sign if the sign
bit is set, that of a zero included. -/
def text (layout : Decimal.Layout) (x : Binary64) : String :=
  if x.isNaN then "NaN"
  else (if x.negative then "-" else "") ++ x.magnitudeText layout

end Binary64

end CssSelectors
