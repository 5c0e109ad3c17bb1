import CssSelectors.Lexeme.Scan

/-!
# Every lexeme takes text

What is left after a lexeme is an end of the text behind its first code point, so a
text falls into finitely many lexemes.
-/

namespace CssSelectors

open CodePoint

namespace Numeral

theorem source_read_ne_nil {text : List Char} (h : starts text = true) :
    (read text).1.source ≠ [] := by
  cases hs : (Sign.read text).1 with
  | some sign => simp [read, source, Sign.source, hs]
  | none =>
    simp only [read, source, Sign.source, hs]
    unfold starts at h
    split at h
    · next c rest heq =>
      rw [heq]
      simp [readFraction, h, fractionSource]
    · next c rest _ heq =>
      rw [heq]
      simp [h]
    · cases h

theorem read_suffix_of_starts {c : Char} {text : List Char} (h : starts (c :: text) = true) :
    (read (c :: text)).2 <:+ text := by
  have hsource := source_read_ne_nil h
  have happend := source_append_read (c :: text)
  cases hs : (read (c :: text)).1.source with
  | nil => exact absurd hs hsource
  | cons d ds =>
    rw [hs, List.cons_append, List.cons.injEq] at happend
    exact ⟨ds, happend.2⟩

end Numeral

namespace Lexeme

theorem ident_suffix_of_isIdent {c : Char} {text : List Char} (h : isIdent c = true) :
    (ident (c :: text)).2 <:+ text := by
  rw [ident, if_pos h]
  exact ident_suffix text

theorem ident_suffix_of_startsEscape {c : Char} {text : List Char}
    (h : startsEscape (c :: text) = true) : (ident (c :: text)).2 <:+ text := by
  rw [ident]
  split
  · exact ident_suffix text
  · exact (ident_suffix _).trans (escape_suffix text)

theorem scanString_suffix (quote : Char) (text : List Char) :
    (scanString quote text).2 <:+ text := by
  have h := quoted_suffix quote text
  unfold scanString
  split <;> simp_all

theorem scanUrl_suffix (text : List Char) : (scanUrl text).2 <:+ text := by
  have h := url_suffix text
  unfold scanUrl
  split <;> simp_all

theorem scanNumeric_suffix (text : List Char) : (scanNumeric text).2 <:+ (Numeral.read text).2 := by
  unfold scanNumeric
  dsimp only
  split
  · exact ident_suffix _
  · split
    · next heq => rw [heq]; exact List.suffix_cons _ _
    · exact List.suffix_refl _

theorem scanIdentLike_suffix (text : List Char) : (scanIdentLike text).2 <:+ (ident text).2 := by
  unfold scanIdentLike
  dsimp only
  split
  · next rest heq =>
    rw [heq]
    split
    · exact (scanUrl_suffix rest).trans (List.suffix_cons _ _)
    · exact List.suffix_cons _ _
  · exact List.suffix_refl _

theorem scanHash_suffix (text : List Char) : (scanHash text).2 <:+ text := by
  unfold scanHash
  split
  · exact ident_suffix text
  · exact List.suffix_refl _

theorem scanAtKeyword_suffix (text : List Char) : (scanAtKeyword text).2 <:+ text := by
  unfold scanAtKeyword
  split
  · exact ident_suffix text
  · exact List.suffix_refl _

theorem scanHyphen_suffix (text : List Char) : (scanHyphen text).2 <:+ text := by
  unfold scanHyphen
  split
  · next h => exact (scanNumeric_suffix _).trans (Numeral.read_suffix_of_starts h)
  · split
    · exact (List.suffix_cons _ _).trans (List.suffix_cons _ _)
    · split
      · exact (scanIdentLike_suffix _).trans (ident_suffix_of_isIdent (by decide))
      · exact List.suffix_refl _

theorem scanLessThan_suffix (text : List Char) : (scanLessThan text).2 <:+ text := by
  unfold scanLessThan
  split
  · exact ((List.suffix_cons _ _).trans (List.suffix_cons _ _)).trans (List.suffix_cons _ _)
  · exact List.suffix_refl _

theorem scanSlash_suffix (text : List Char) : (scanSlash text).2 <:+ text := by
  unfold scanSlash
  split
  · exact (comment_suffix _).trans (List.suffix_cons _ _)
  · exact List.suffix_refl _

theorem scanNumeric_suffix_of_starts {c : Char} {text : List Char}
    (h : Numeral.starts (c :: text) = true) : (scanNumeric (c :: text)).2 <:+ text :=
  (scanNumeric_suffix _).trans (Numeral.read_suffix_of_starts h)

theorem starts_of_isDigit {c : Char} {text : List Char} (h : c.isDigit = true) :
    Numeral.starts (c :: text) = true := by
  have hplus : c ≠ '+' := by rintro rfl; cases h
  have hminus : c ≠ '-' := by rintro rfl; cases h
  have hpoint : c ≠ '.' := by rintro rfl; cases h
  have hsign : Sign.ofChar? c = none := by
    unfold Sign.ofChar?
    split <;> simp_all
  rw [Numeral.starts, Sign.read, hsign]
  split <;> simp_all

theorem scan_suffix (c : Char) (text : List Char) : (scan c text).2 <:+ text := by
  unfold scan
  split
  · exact List.dropWhile_suffix isBlank
  split
  · next h => exact scanNumeric_suffix_of_starts (starts_of_isDigit h)
  split
  · next h =>
    exact (scanIdentLike_suffix _).trans
      (ident_suffix_of_isIdent (by simp [isIdent, h]))
  split
  case h_1 | h_2 => exact scanString_suffix _ _
  case h_3 => exact scanHash_suffix _
  case h_7 => exact scanHyphen_suffix _
  case h_8 => exact scanSlash_suffix _
  case h_11 => exact scanLessThan_suffix _
  case h_12 => exact scanAtKeyword_suffix _
  case h_17 =>
    split
    · next h => exact (scanIdentLike_suffix _).trans (ident_suffix_of_startsEscape h)
    · exact List.suffix_refl _
  case h_18 | h_19 =>
    split
    · next h => exact scanNumeric_suffix_of_starts h
    · exact List.suffix_refl _
  all_goals exact List.suffix_refl _

theorem scan_length_le (c : Char) (text : List Char) : (scan c text).2.length ≤ text.length :=
  (scan_suffix c text).length_le

end Lexeme

end CssSelectors
