import CssSelectors.Text.CodePoint

/-!
# Escapes

A backslash that no newline follows escapes a code point: up to six hexadecimal
digits and one blank behind them give its number, and anything else stands for
itself.
-/

namespace CssSelectors

namespace Lexeme

open CodePoint

/-- Whether an escape begins here. A backslash at the end of the text is one. -/
def startsEscape : List Char → Bool
  | '\\' :: rest => rest.head? ≠ some '\n'
  | _ => false

def skipBlank : List Char → List Char
  | [] => []
  | c :: rest => if isBlank c then rest else c :: rest

def escape (text : List Char) : Char × List Char :=
  match (text.take 6).takeWhile isHexDigit with
  | [] =>
    match text with
    | [] => (replacement, [])
    | c :: rest => (c, rest)
  | digit :: digits =>
    (ofNumber (hexValue (digit :: digits)), skipBlank (text.drop (digits.length + 1)))

theorem skipBlank_suffix (text : List Char) : skipBlank text <:+ text := by
  cases text with
  | nil => exact List.suffix_refl _
  | cons c rest =>
    rw [skipBlank]
    split
    · exact List.suffix_cons c rest
    · exact List.suffix_refl _

theorem escape_suffix (text : List Char) : (escape text).2 <:+ text := by
  unfold escape
  split
  · split
    · exact List.suffix_refl _
    · exact List.suffix_cons _ _
  · exact (skipBlank_suffix _).trans (List.drop_suffix _ _)

theorem escape_length_le (text : List Char) : (escape text).2.length ≤ text.length :=
  (escape_suffix text).length_le

end Lexeme

end CssSelectors
