/-!
# Code point classes

The classes of code points that the token rules of CSS speak of. All of them are
decided by the code point alone; everything outside ASCII may stand in a name.
-/

namespace CssSelectors

namespace CodePoint

def isBlank (c : Char) : Bool :=
  c = '\n' || c = '\t' || c = ' ' || c = '\r' || c = '\x0c'

def isIdentStart (c : Char) : Bool :=
  c.isAlpha || c = '_' || 0x80 ≤ c.toNat

def isIdent (c : Char) : Bool :=
  isIdentStart c || c.isDigit || c = '-'

def isHexDigit (c : Char) : Bool :=
  c.isDigit || ('a' ≤ c && c ≤ 'f') || ('A' ≤ c && c ≤ 'F')

def hexDigitValue (c : Char) : Nat :=
  if c.isDigit then c.toNat - '0'.toNat
  else if 'a' ≤ c then c.toNat - 'a'.toNat + 10
  else c.toNat - 'A'.toNat + 10

def hexValue (digits : List Char) : Nat :=
  digits.foldl (fun n c => 16 * n + hexDigitValue c) 0

def decimalValue (digits : List Char) : Nat :=
  digits.foldl (fun n c => 10 * n + (c.toNat - '0'.toNat)) 0

def replacement : Char := '\uFFFD'

/-- The code point numbered `n`, or the replacement for zero, a surrogate and
anything above the last code point. -/
def ofNumber (n : Nat) : Char :=
  if n = 0 then replacement
  else if n.isValidChar then Char.ofNat n
  else replacement

end CodePoint

/-- Equality of texts that takes an ASCII letter and its capital for the same. -/
def equalsIgnoringCase (s t : String) : Bool :=
  s.toList.map Char.toLower = t.toList.map Char.toLower

end CssSelectors
