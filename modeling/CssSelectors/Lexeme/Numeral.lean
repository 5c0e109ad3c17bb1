import CssSelectors.Text.CodePoint
import CssSelectors.Token.Basic

/-!
# Numerals

A numeral is an optional sign, digits, an optional point with digits behind it, and
an optional power of ten. It is kept as written, so that its text and the number it
stands for are both read off it.
-/

namespace CssSelectors

open CodePoint

inductive Sign
  | plus
  | minus
deriving DecidableEq, Repr

structure Exponent where
  letter : Char
  sign : Option Sign
  digits : List Char
deriving DecidableEq, Repr

structure Numeral where
  sign : Option Sign
  whole : List Char
  fraction : Option (List Char)
  exponent : Option Exponent
deriving DecidableEq, Repr

namespace Sign

def char : Sign → Char
  | .plus => '+'
  | .minus => '-'

def ofChar? : Char → Option Sign
  | '+' => some .plus
  | '-' => some .minus
  | _ => none

def read : List Char → Option Sign × List Char
  | [] => (none, [])
  | c :: rest =>
    match ofChar? c with
    | some sign => (some sign, rest)
    | none => (none, c :: rest)

def source (sign : Option Sign) : List Char :=
  (sign.map char).toList

theorem char_of_ofChar? {c : Char} {sign : Sign} (h : ofChar? c = some sign) :
    sign.char = c := by
  unfold ofChar? at h
  split at h <;> cases h <;> rfl

theorem source_append_read (text : List Char) :
    source (read text).1 ++ (read text).2 = text := by
  unfold read
  split
  · rfl
  · split
    · next h => simp [source, char_of_ofChar? h]
    · rfl

end Sign

namespace Numeral

/-- The fraction at the start of the text: a point that a digit follows. -/
def readFraction : List Char → Option (List Char) × List Char
  | '.' :: rest =>
    match rest.takeWhile Char.isDigit with
    | [] => (none, '.' :: rest)
    | digit :: digits => (some (digit :: digits), rest.dropWhile Char.isDigit)
  | text => (none, text)

def readExponent : List Char → Option Exponent × List Char
  | [] => (none, [])
  | c :: rest =>
    if c = 'e' || c = 'E' then
      let signed := Sign.read rest
      match signed.2.takeWhile Char.isDigit with
      | [] => (none, c :: rest)
      | digit :: digits =>
        (some ⟨c, signed.1, digit :: digits⟩, signed.2.dropWhile Char.isDigit)
    else (none, c :: rest)

def read (text : List Char) : Numeral × List Char :=
  let signed := Sign.read text
  let whole := signed.2.takeWhile Char.isDigit
  let fraction := readFraction (signed.2.dropWhile Char.isDigit)
  let exponent := readExponent fraction.2
  (⟨signed.1, whole, fraction.1, exponent.1⟩, exponent.2)

def starts (text : List Char) : Bool :=
  match (Sign.read text).2 with
  | '.' :: c :: _ => c.isDigit
  | c :: _ => c.isDigit
  | [] => false

def fractionSource : Option (List Char) → List Char
  | none => []
  | some digits => '.' :: digits

def exponentSource : Option Exponent → List Char
  | none => []
  | some exponent => exponent.letter :: (Sign.source exponent.sign ++ exponent.digits)

def source (numeral : Numeral) : List Char :=
  Sign.source numeral.sign ++ numeral.whole ++ fractionSource numeral.fraction ++
    exponentSource numeral.exponent

theorem source_append_readFraction (text : List Char) :
    fractionSource (readFraction text).1 ++ (readFraction text).2 = text := by
  unfold readFraction
  split
  · next rest =>
    split
    · rfl
    · next digit digits h =>
      have := List.takeWhile_append_dropWhile (p := Char.isDigit) (l := rest)
      rw [h] at this
      simp [fractionSource, this]
  · rfl

theorem source_append_readExponent (text : List Char) :
    exponentSource (readExponent text).1 ++ (readExponent text).2 = text := by
  unfold readExponent
  split
  · rfl
  · next c rest =>
    dsimp only
    split
    · split
      · rfl
      · next digit digits h =>
        have := List.takeWhile_append_dropWhile (p := Char.isDigit) (l := (Sign.read rest).2)
        rw [h] at this
        rw [exponentSource, List.cons_append, List.append_assoc, this,
          Sign.source_append_read]
    · rfl

theorem source_append_read (text : List Char) :
    (read text).1.source ++ (read text).2 = text := by
  simp only [read, source, List.append_assoc]
  rw [source_append_readExponent, source_append_readFraction,
    List.takeWhile_append_dropWhile, Sign.source_append_read]

theorem read_suffix (text : List Char) : (read text).2 <:+ text :=
  ⟨_, source_append_read text⟩

def isNegative (numeral : Numeral) : Bool :=
  numeral.sign = some .minus

/-- A numeral with neither point nor power of ten is an integer. -/
def kind (numeral : Numeral) : NumericKind :=
  if numeral.fraction.isNone && numeral.exponent.isNone then .integer else .number

def fractionDigits (numeral : Numeral) : List Char :=
  numeral.fraction.getD []

def exponentValue (numeral : Numeral) : Int :=
  match numeral.exponent with
  | none => 0
  | some exponent =>
    if exponent.sign = some .minus then -(decimalValue exponent.digits : Int)
    else decimalValue exponent.digits

def value (numeral : Numeral) : Binary64 :=
  .ofDecimal numeral.isNegative (decimalValue (numeral.whole ++ numeral.fractionDigits))
    (numeral.exponentValue - numeral.fractionDigits.length)

/-- The whole number before the point, with the sign of the numeral. -/
def wholeValue (numeral : Numeral) : Int :=
  if numeral.isNegative then -(decimalValue numeral.whole : Int)
  else decimalValue numeral.whole

def fitsWord (i : Int) : Bool :=
  -Int.pow 2 63 ≤ i && i < Int.pow 2 63

theorem fitsWord_iff {i : Int} :
    fitsWord i = true ↔ -9223372036854775808 ≤ i ∧ i < 9223372036854775808 := by
  rw [fitsWord, Bool.and_eq_true, decide_eq_true_eq, decide_eq_true_eq]
  rfl

theorem fitsWord_neg {i : Int} (hnonneg : 0 ≤ i) (h : fitsWord i = true) :
    fitsWord (-i) = true := by
  rw [fitsWord_iff] at h ⊢
  omega

def intValue (numeral : Numeral) : Option Int :=
  match numeral.kind with
  | .integer => if fitsWord numeral.wholeValue then some numeral.wholeValue else none
  | .number => none

def numeric (numeral : Numeral) : Numeric :=
  { value := numeral.value
    intValue := numeral.intValue
    kind := numeral.kind
    signed := numeral.sign.isSome }

end Numeral

end CssSelectors
