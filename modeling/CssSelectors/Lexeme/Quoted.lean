import CssSelectors.Lexeme.Escape

/-!
# Quoted text and comments

The text between quotes with its escapes decoded, and the text of a comment. The
end of the text closes both; a newline between quotes spoils them.
-/

namespace CssSelectors

namespace Lexeme

def prepend (c : Char) (reading : Option (List Char) × List Char) :
    Option (List Char) × List Char :=
  (reading.1.map (c :: ·), reading.2)

/-- The text up to the closing quote, decoded, and the text after the quote. Nothing is
decoded where a newline comes first, and the newline is left. A backslash at the end of
the text is dropped, and so is one before a newline, together with the newline. -/
def quoted (quote : Char) : List Char → Option (List Char) × List Char
  | [] => (some [], [])
  | c :: rest =>
    if c = quote then (some [], rest)
    else if c = '\n' then (none, c :: rest)
    else if c = '\\' then
      if rest = [] then (some [], [])
      else if startsEscape (c :: rest) then
        let escaped := escape rest
        prepend escaped.1 (quoted quote escaped.2)
      else quoted quote rest.tail
    else prepend c (quoted quote rest)
termination_by text => text.length
decreasing_by
  · exact Nat.lt_succ_of_le (escape_length_le rest)
  · simp only [List.length_tail, List.length_cons]; omega
  · exact Nat.lt_succ_self _

def comment : List Char → List Char × List Char
  | [] => ([], [])
  | '*' :: '/' :: rest => ([], rest)
  | c :: rest =>
    let tail := comment rest
    (c :: tail.1, tail.2)

theorem quoted_suffix (quote : Char) (text : List Char) : (quoted quote text).2 <:+ text := by
  fun_induction quoted quote text with
  | case1 => exact List.suffix_refl _
  | case2 => exact List.suffix_cons _ _
  | case3 => exact List.suffix_refl _
  | case4 => exact List.nil_suffix
  | case5 rest _ _ _ _ _ ih =>
    exact (ih.trans (escape_suffix rest)).trans (List.suffix_cons _ rest)
  | case6 rest _ _ _ _ ih =>
    exact (ih.trans (List.tail_suffix rest)).trans (List.suffix_cons _ rest)
  | case7 c rest _ _ _ ih => exact ih.trans (List.suffix_cons c rest)

theorem comment_suffix (text : List Char) : (comment text).2 <:+ text := by
  fun_induction comment text with
  | case1 => exact List.suffix_refl _
  | case2 rest => exact (List.suffix_cons '/' rest).trans (List.suffix_cons '*' _)
  | case3 c rest _ _ ih => exact ih.trans (List.suffix_cons c rest)

end Lexeme

end CssSelectors
