import CssSelectors.Lexeme.Escape

/-!
# Names

The longest run of name code points and escapes, with its escapes decoded.
-/

namespace CssSelectors

namespace Lexeme

open CodePoint

/-- Whether a name begins here: a name start or an escape, either of them behind a
hyphen, or two hyphens. -/
def startsIdent : List Char → Bool
  | '-' :: c :: rest => isIdentStart c || c = '-' || startsEscape (c :: rest)
  | c :: rest => isIdentStart c || startsEscape (c :: rest)
  | [] => false

def ident : List Char → List Char × List Char
  | [] => ([], [])
  | c :: rest =>
    if isIdent c then
      let tail := ident rest
      (c :: tail.1, tail.2)
    else if startsEscape (c :: rest) then
      let escaped := escape rest
      let tail := ident escaped.2
      (escaped.1 :: tail.1, tail.2)
    else ([], c :: rest)
termination_by text => text.length
decreasing_by
  · exact Nat.lt_succ_self _
  · exact Nat.lt_succ_of_le (escape_length_le rest)

theorem ident_suffix (text : List Char) : (ident text).2 <:+ text := by
  fun_induction ident text with
  | case1 => exact List.suffix_refl _
  | case2 c rest _ _ ih => exact ih.trans (List.suffix_cons c rest)
  | case3 c rest _ _ _ _ ih =>
    exact (ih.trans (escape_suffix rest)).trans (List.suffix_cons c rest)
  | case4 => exact List.suffix_refl _

end Lexeme

end CssSelectors
