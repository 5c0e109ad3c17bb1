import CssSelectors.Tokenizer

/-!
# What a lexeme is read from

Every lexeme says how the text at its start begins and which reader took it. What holds of all
lexemes is a case for each kind of them, and nothing has to look into the scanner again.
-/

namespace CssSelectors

open CodePoint

namespace CodePoint

/-- ASCII code points that may be a lexeme of their own without being punctuation. -/
def isDelim (c : Char) : Bool :=
  c.toNat < 0x80 && !c.isAlpha && !c.isDigit && c ≠ '_' && !isBlank c &&
    !(['"', '\'', '(', ')', '[', ']', '\x7b', '\x7d', ',', ':', ';'].contains c)

end CodePoint

/-- The code point of an atom that is always the same one. -/
def Atom.mark? : Atom → Option Char
  | .colon => some ':'
  | .semicolon => some ';'
  | .comma => some ','
  | .leftBracket => some '['
  | .rightBracket => some ']'
  | .leftParen => some '('
  | .rightParen => some ')'
  | .leftBrace => some '\x7b'
  | .rightBrace => some '\x7d'
  | _ => none

namespace Lexeme

variable {c : Char} {text : List Char}

/-! ## Where a name begins -/

theorem startsEscape_cons_iff :
    startsEscape (c :: text) = true ↔ c = '\\' ∧ text.head? ≠ some '\n' := by
  by_cases hc : c = '\\'
  · subst hc
    simp [startsEscape]
  · rw [startsEscape]
    · simp [hc]
    · intro rest heq
      exact hc (List.cons.inj heq).1

theorem startsIdent_cons (hc : c ≠ '-') :
    startsIdent (c :: text) = (isIdentStart c || startsEscape (c :: text)) := by
  rw [startsIdent]
  intro d rest hd
  exact absurd hd hc

theorem isIdent_or_startsEscape (h : startsIdent (c :: text) = true) :
    isIdent c = true ∨ startsEscape (c :: text) = true := by
  by_cases hc : c = '-'
  · subst hc
    exact .inl (by decide)
  · rw [startsIdent_cons hc, Bool.or_eq_true] at h
    exact h.imp_left fun hstart => by simp [isIdent, hstart]

theorem ident_suffix_of_startsIdent (h : startsIdent (c :: text) = true) :
    (ident (c :: text)).2 <:+ text := by
  obtain hident | hescape := isIdent_or_startsEscape h
  · exact ident_suffix_of_isIdent hident
  · exact ident_suffix_of_startsEscape hescape

/-! ## Origins -/

/-- How the lexeme at the start of `c :: text` was read, with `rest` behind it. -/
inductive Origin (c : Char) (text : List Char) : Lexeme → List Char → Prop
  | whitespace (blank : isBlank c = true) :
      Origin c text (.atom .whitespace) (text.dropWhile isBlank)
  | number {numeral : Numeral} {rest : List Char} (starts : Numeral.starts (c :: text) = true)
      (read : Numeral.read (c :: text) = (numeral, rest)) (unitless : startsIdent rest = false)
      (bare : rest.head? ≠ some '%') : Origin c text (.atom (.number numeral.numeric)) rest
  | percentage {numeral : Numeral} {rest : List Char}
      (starts : Numeral.starts (c :: text) = true)
      (read : Numeral.read (c :: text) = (numeral, '%' :: rest)) :
      Origin c text (.atom (.percentage numeral.numeric)) rest
  | dimension {numeral : Numeral} {middle unit rest : List Char}
      (starts : Numeral.starts (c :: text) = true)
      (read : Numeral.read (c :: text) = (numeral, middle)) (united : startsIdent middle = true)
      (unit_read : Lexeme.ident middle = (unit, rest)) :
      Origin c text (.atom (.dimension numeral.numeric (String.ofList unit))) rest
  | ident {name rest : List Char} (starts : startsIdent (c :: text) = true)
      (read : Lexeme.ident (c :: text) = (name, rest)) (bare : rest.head? ≠ some '(') :
      Origin c text (.atom (.ident (String.ofList name))) rest
  | function {name rest : List Char} (starts : startsIdent (c :: text) = true)
      (read : Lexeme.ident (c :: text) = (name, '(' :: rest)) :
      Origin c text (.function (String.ofList name)) rest
  | url {name inside value rest : List Char} (starts : startsIdent (c :: text) = true)
      (read : Lexeme.ident (c :: text) = (name, '(' :: inside))
      (address : Lexeme.url inside = (some value, rest)) :
      Origin c text (.atom (.url (String.ofList value))) rest
  | badUrl {name inside rest : List Char} (starts : startsIdent (c :: text) = true)
      (read : Lexeme.ident (c :: text) = (name, '(' :: inside))
      (address : Lexeme.url inside = (none, rest)) : Origin c text (.atom .badUrl) rest
  | string {value rest : List Char} (quote : c = '"' ∨ c = '\'')
      (read : quoted c text = (some value, rest)) :
      Origin c text (.atom (.string (String.ofList value))) rest
  | badString {rest : List Char} (quote : c = '"' ∨ c = '\'')
      (read : quoted c text = (none, rest)) : Origin c text (.atom .badString) rest
  | hash {name rest : List Char} (sign : c = '#')
      (starts : (text.head?.any isIdent || startsEscape text) = true)
      (read : Lexeme.ident text = (name, rest)) :
      Origin c text
        (.atom (.hash (String.ofList name) (if startsIdent text then .id else .unrestricted))) rest
  | atKeyword {name rest : List Char} (sign : c = '@') (starts : startsIdent text = true)
      (read : Lexeme.ident text = (name, rest)) :
      Origin c text (.atom (.atKeyword (String.ofList name))) rest
  | comment {inside body rest : List Char} (slash : c = '/') (star : text = '*' :: inside)
      (read : Lexeme.comment inside = (body, rest)) :
      Origin c text (.atom (.comment (String.ofList body))) rest
  | cdo {rest : List Char} (sign : c = '<') (behind : text = '!' :: '-' :: '-' :: rest) :
      Origin c text (.atom .cdo) rest
  | cdc {rest : List Char} (sign : c = '-') (behind : text = '-' :: '>' :: rest) :
      Origin c text (.atom .cdc) rest
  | mark {a : Atom} (mark : a.mark? = some c) : Origin c text (.atom a) text
  | delim (delim : isDelim c = true) (no_escape : startsEscape (c :: text) = false) :
      Origin c text (.atom (.delim c)) text

theorem origin_scanNumeric (h : Numeral.starts (c :: text) = true) :
    Origin c text (scanNumeric (c :: text)).1 (scanNumeric (c :: text)).2 := by
  unfold scanNumeric
  dsimp only
  split
  · next hunit => exact .dimension h rfl hunit rfl
  · next hunit =>
      split
      · next rest heq => exact .percentage h (Prod.ext rfl heq)
      · next hbare =>
          refine .number h rfl (Bool.eq_false_iff.2 hunit) fun hhead => ?_
          obtain ⟨rest, heq⟩ := List.head?_eq_some_iff.1 hhead
          exact hbare rest heq

theorem origin_scanIdentLike (h : startsIdent (c :: text) = true) :
    Origin c text (scanIdentLike (c :: text)).1 (scanIdentLike (c :: text)).2 := by
  unfold scanIdentLike
  dsimp only
  split
  · next inside heq =>
      have hread : ident (c :: text) = ((ident (c :: text)).1, '(' :: inside) := Prod.ext rfl heq
      split
      · unfold scanUrl
        split
        · next value rest haddress => exact .url h hread haddress
        · next rest haddress => exact .badUrl h hread haddress
      · exact .function h hread
  · next hparen =>
      refine .ident h rfl fun hhead => ?_
      obtain ⟨rest, heq⟩ := List.head?_eq_some_iff.1 hhead
      exact hparen rest heq

theorem origin_scanString (h : c = '"' ∨ c = '\'') :
    Origin c text (scanString c text).1 (scanString c text).2 := by
  unfold scanString
  split
  · next heq => exact .string h heq
  · next heq => exact .badString h heq

theorem origin_scanHash : Origin '#' text (scanHash text).1 (scanHash text).2 := by
  unfold scanHash
  split
  · next h => exact .hash rfl h rfl
  · exact .delim (by decide) (by simp [startsEscape])

theorem origin_scanAtKeyword : Origin '@' text (scanAtKeyword text).1 (scanAtKeyword text).2 := by
  unfold scanAtKeyword
  split
  · next h => exact .atKeyword rfl h rfl
  · exact .delim (by decide) (by simp [startsEscape])

theorem origin_scanHyphen : Origin '-' text (scanHyphen text).1 (scanHyphen text).2 := by
  unfold scanHyphen
  split
  · next h => exact origin_scanNumeric h
  · split
    · exact .cdc rfl rfl
    · split
      · next h => exact origin_scanIdentLike h
      · exact .delim (by decide) (by simp [startsEscape])

theorem origin_scanLessThan : Origin '<' text (scanLessThan text).1 (scanLessThan text).2 := by
  unfold scanLessThan
  split
  · exact .cdo rfl rfl
  · exact .delim (by decide) (by simp [startsEscape])

theorem origin_scanSlash : Origin '/' text (scanSlash text).1 (scanSlash text).2 := by
  unfold scanSlash
  split
  · exact .comment rfl rfl rfl
  · exact .delim (by decide) (by simp [startsEscape])

theorem origin_scan (c : Char) (text : List Char) :
    Origin c text (scan c text).1 (scan c text).2 := by
  unfold scan
  split
  · next hblank => exact .whitespace hblank
  next hblank =>
  split
  · next hdigit => exact origin_scanNumeric (starts_of_isDigit hdigit)
  next hdigit =>
  split
  · next hstart =>
      have hhyphen : c ≠ '-' := by
        rintro rfl
        cases hstart
      exact origin_scanIdentLike (by rw [startsIdent_cons hhyphen, hstart, Bool.true_or])
  next hstart =>
  split
  case h_1 => exact origin_scanString (.inl rfl)
  case h_2 => exact origin_scanString (.inr rfl)
  case h_3 => exact origin_scanHash
  case h_7 => exact origin_scanHyphen
  case h_8 => exact origin_scanSlash
  case h_11 => exact origin_scanLessThan
  case h_12 => exact origin_scanAtKeyword
  case h_17 =>
    split
    · next h => exact origin_scanIdentLike (by rw [startsIdent_cons (by decide), h, Bool.or_true])
    · next h => exact .delim (by decide) (Bool.eq_false_iff.2 h)
  case h_18 | h_19 =>
    split
    · next h => exact origin_scanNumeric h
    · exact .delim (by decide) (by simp [startsEscape])
  case h_20 =>
    refine .delim ?_ (Bool.eq_false_iff.2 fun hescape => ?_)
    · simp only [isIdentStart, Bool.or_eq_true, decide_eq_true_eq, not_or, Nat.not_le] at hstart
      simp_all [isDelim]
    · exact absurd (startsEscape_cons_iff.1 hescape).1 ‹_›
  all_goals exact .mark rfl

theorem origin_of_scan {lexeme : Lexeme} {rest : List Char} (h : scan c text = (lexeme, rest)) :
    Origin c text lexeme rest := by
  have horigin := origin_scan c text
  rwa [h] at horigin

end Lexeme

end CssSelectors
