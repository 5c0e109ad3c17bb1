import CssSelectors.Lexeme.Quoted

/-!
# Unquoted addresses

The text between `url(` and its closing parenthesis. Blanks may surround it; a quote,
an opening parenthesis, a backslash before a newline or a blank in the middle spoils
it, and a spoilt address still ends at the same parenthesis.
-/

namespace CssSelectors

namespace Lexeme

open CodePoint

/-- The text after the first closing parenthesis that is not escaped. -/
def skipBadUrl : List Char → List Char
  | [] => []
  | c :: rest =>
    if c = ')' then rest
    else if startsEscape (c :: rest) then skipBadUrl (escape rest).2
    else skipBadUrl rest
termination_by text => text.length
decreasing_by
  · exact Nat.lt_succ_of_le (escape_length_le rest)
  · exact Nat.lt_succ_self _

/-- What remains to be read of an address behind a blank: only the closing parenthesis. -/
def urlEnd (text : List Char) : Option (List Char) × List Char :=
  match text.dropWhile isBlank with
  | [] => (some [], [])
  | c :: rest => if c = ')' then (some [], rest) else (none, skipBadUrl (c :: rest))

def urlBody : List Char → Option (List Char) × List Char
  | [] => (some [], [])
  | c :: rest =>
    if c = ')' then (some [], rest)
    else if isBlank c then urlEnd rest
    else if c = '"' || c = '\'' || c = '(' then (none, skipBadUrl rest)
    else if c = '\\' then
      if startsEscape (c :: rest) then
        let escaped := escape rest
        prepend escaped.1 (urlBody escaped.2)
      else (none, skipBadUrl rest)
    else prepend c (urlBody rest)
termination_by text => text.length
decreasing_by
  · exact Nat.lt_succ_of_le (escape_length_le rest)
  · exact Nat.lt_succ_self _

def url (text : List Char) : Option (List Char) × List Char :=
  urlBody (text.dropWhile isBlank)

def opensQuoted (text : List Char) : Bool :=
  match text.dropWhile isBlank with
  | [] => false
  | c :: _ => c = '"' || c = '\''

theorem skipBadUrl_suffix (text : List Char) : skipBadUrl text <:+ text := by
  fun_induction skipBadUrl text with
  | case1 => exact List.suffix_refl _
  | case2 => exact List.suffix_cons _ _
  | case3 c rest _ _ ih => exact (ih.trans (escape_suffix rest)).trans (List.suffix_cons c rest)
  | case4 c rest _ _ ih => exact ih.trans (List.suffix_cons c rest)

theorem urlEnd_suffix (text : List Char) : (urlEnd text).2 <:+ text := by
  unfold urlEnd
  split
  · exact List.nil_suffix
  · next c rest h =>
    have hdrop : c :: rest <:+ text := h ▸ List.dropWhile_suffix isBlank
    split
    · exact (List.suffix_cons c rest).trans hdrop
    · exact (skipBadUrl_suffix _).trans hdrop

theorem urlBody_suffix (text : List Char) : (urlBody text).2 <:+ text := by
  fun_induction urlBody text with
  | case1 => exact List.suffix_refl _
  | case2 => exact List.suffix_cons _ _
  | case3 c rest _ _ => exact (urlEnd_suffix rest).trans (List.suffix_cons c rest)
  | case4 c rest _ _ _ => exact (skipBadUrl_suffix rest).trans (List.suffix_cons c rest)
  | case5 rest _ _ _ _ _ ih =>
    exact (ih.trans (escape_suffix rest)).trans (List.suffix_cons _ rest)
  | case6 rest _ _ _ _ => exact (skipBadUrl_suffix rest).trans (List.suffix_cons _ rest)
  | case7 c rest _ _ _ _ ih => exact ih.trans (List.suffix_cons c rest)

theorem url_suffix (text : List Char) : (url text).2 <:+ text :=
  (urlBody_suffix _).trans (List.dropWhile_suffix isBlank)

end Lexeme

end CssSelectors
