import CssSelectors.Proofs.Tokens.Cutting.Text

/-!
# Cutting text behind a lexeme

A lexeme that ends before the place where a text is cut is the same without the part behind
the cut, if the cut makes no escape, spoils no lexeme and takes nothing from the blanks
behind the name of a function.
-/

namespace CssSelectors

open CodePoint

variable {text post rest : List Char} {c : Char}

/-! ## Numerals -/

theorem nil_of_append {source : List Char} (h : source ++ (rest ++ post) = post) :
    source = [] ∧ rest = [] := by
  have hlength := congrArg List.length h
  rw [List.length_append, List.length_append] at hlength
  exact ⟨List.eq_nil_of_length_eq_zero (by omega), List.eq_nil_of_length_eq_zero (by omega)⟩

namespace Sign

theorem read_suffix (text : List Char) : (read text).2 <:+ text :=
  ⟨_, source_append_read text⟩

theorem read_append (h : text ≠ []) :
    read (text ++ post) = ((read text).1, (read text).2 ++ post) := by
  obtain ⟨c, text, rfl⟩ := List.exists_cons_of_ne_nil h
  rw [List.cons_append, read, read]
  split <;> rfl

theorem read_of_append {sign : Option Sign} (h : read (text ++ post) = (sign, rest ++ post)) :
    read text = (sign, rest) := by
  cases text with
  | nil =>
      have hsource := source_append_read ([] ++ post)
      rw [h] at hsource
      obtain ⟨hsign, rfl⟩ := nil_of_append hsource
      cases sign with
      | none => rfl
      | some sign => cases hsign
  | cons c text =>
      rw [read_append (by simp)] at h
      obtain ⟨rfl, hrest⟩ := Prod.mk.inj h
      rw [← List.append_cancel_right hrest]

end Sign

namespace Numeral

theorem readFraction_suffix (text : List Char) : (readFraction text).2 <:+ text :=
  ⟨_, source_append_readFraction text⟩

theorem readExponent_suffix (text : List Char) : (readExponent text).2 <:+ text :=
  ⟨_, source_append_readExponent text⟩

theorem readFraction_cons (hc : c ≠ '.') : readFraction (c :: text) = (none, c :: text) := by
  rw [readFraction]
  intro rest heq
  exact hc (List.cons.inj heq).1

theorem readFraction_of_append {fraction : Option (List Char)}
    (h : readFraction (text ++ post) = (fraction, rest ++ post)) :
    readFraction text = (fraction, rest) := by
  cases text with
  | nil =>
      have hsource := source_append_readFraction ([] ++ post)
      rw [h] at hsource
      obtain ⟨hfraction, rfl⟩ := nil_of_append hsource
      cases fraction with
      | none => rfl
      | some digits => cases hfraction
  | cons c text =>
      by_cases hc : c = '.'
      · subst hc
        simp only [List.cons_append, readFraction] at h ⊢
        split at h
        · next hdigits =>
            obtain ⟨rfl, hrest⟩ := Prod.mk.inj h
            obtain rfl : '.' :: text = rest := List.append_cancel_right hrest
            rw [takeWhile_of_append_eq_nil hdigits]
        · next digit digits hdigits =>
            obtain ⟨rfl, hrest⟩ := Prod.mk.inj h
            rw [takeWhile_of_append hrest, hdigits, dropWhile_of_append hrest]
      · rw [List.cons_append, readFraction_cons hc] at h
        obtain ⟨rfl, hrest⟩ := Prod.mk.inj h
        obtain rfl : c :: text = rest := List.append_cancel_right hrest
        exact readFraction_cons hc

theorem readExponent_of_append {exponent : Option Exponent}
    (h : readExponent (text ++ post) = (exponent, rest ++ post)) :
    readExponent text = (exponent, rest) := by
  cases text with
  | nil =>
      have hsource := source_append_readExponent ([] ++ post)
      rw [h] at hsource
      obtain ⟨hexponent, rfl⟩ := nil_of_append hsource
      cases exponent with
      | none => rfl
      | some exponent => cases hexponent
  | cons c text =>
      simp only [List.cons_append, readExponent] at h ⊢
      split at h
      · next hc =>
          rw [if_pos hc]
          split at h
          · next hdigits =>
              obtain ⟨rfl, hrest⟩ := Prod.mk.inj h
              obtain rfl : c :: text = rest := List.append_cancel_right hrest
              have hdigits' : (Sign.read text).2.takeWhile Char.isDigit = [] := by
                cases text with
                | nil => rfl
                | cons d text =>
                    rw [Sign.read_append (by simp)] at hdigits
                    exact takeWhile_of_append_eq_nil hdigits
              rw [hdigits']
          · next digit digits hdigits =>
              obtain ⟨rfl, hrest⟩ := Prod.mk.inj h
              have hsuffix : rest ++ post <:+ (Sign.read (text ++ post)).2 :=
                hrest ▸ List.dropWhile_suffix _
              obtain ⟨signed, hsigned⟩ := exists_append_of_suffix (Sign.read_suffix _) hsuffix
              rw [hsigned] at hrest hdigits
              rw [Sign.read_of_append (Prod.ext rfl hsigned)]
              dsimp only
              rw [takeWhile_of_append hrest, hdigits, dropWhile_of_append hrest]
      · next hc =>
          obtain ⟨rfl, hrest⟩ := Prod.mk.inj h
          obtain rfl : c :: text = rest := List.append_cancel_right hrest
          rw [if_neg hc]

theorem read_of_append {numeral : Numeral} (h : read (text ++ post) = (numeral, rest ++ post)) :
    read text = (numeral, rest) := by
  obtain ⟨rfl, hrest⟩ := Prod.mk.inj h
  have hfraction : rest ++ post <:+ _ := hrest ▸ readExponent_suffix _
  have hwhole := hfraction.trans (readFraction_suffix _)
  have hsign := hwhole.trans (List.dropWhile_suffix _)
  obtain ⟨signed, hsigned⟩ := exists_append_of_suffix (Sign.read_suffix (text ++ post)) hsign
  rw [hsigned] at hrest hfraction hwhole
  obtain ⟨middle, hmiddle⟩ := exists_append_of_suffix (List.dropWhile_suffix _) hwhole
  rw [hmiddle] at hrest hfraction
  obtain ⟨behind, hbehind⟩ := exists_append_of_suffix (readFraction_suffix _) hfraction
  rw [hbehind] at hrest
  simp only [read, Sign.read_of_append (Prod.ext rfl hsigned), dropWhile_of_append hmiddle,
    takeWhile_of_append hmiddle, readFraction_of_append (Prod.ext rfl hbehind),
    readExponent_of_append (Prod.ext rfl hrest), hsigned, hmiddle, hbehind]

theorem starts_append (h : starts text = true) : starts (text ++ post) = true := by
  have hne : text ≠ [] := by
    rintro rfl
    cases h
  unfold starts at h ⊢
  rw [Sign.read_append hne]
  split at h
  · next d rest heq =>
      rw [heq]
      exact h
  · next d rest _ heq =>
      rw [heq]
      have hd : d ≠ '.' := by
        rintro rfl
        cases h
      simp [hd, h]
  · cases h

theorem starts_iff : starts text = true ↔
    (read text).1.whole ≠ [] ∨ (read text).1.fraction.isSome = true := by
  unfold starts read
  dsimp only
  split
  · next d rest heq =>
      rw [heq]
      by_cases hd : d.isDigit = true <;> simp [readFraction, hd]
  · next d rest hpoint heq =>
      rw [heq]
      by_cases hd : d.isDigit = true
      · simp [hd]
      · have hfraction : (readFraction (d :: rest)).1 = none := by
          by_cases hc : d = '.'
          · subst hc
            cases rest with
            | nil => rfl
            | cons e rest => exact (hpoint e rest rfl rfl).elim
          · rw [readFraction_cons hc]
        simp [hd, hfraction]
  · next heq => simp [heq, readFraction]

theorem starts_of_append (h : starts (text ++ post) = true)
    (hrest : rest ++ post <:+ (read (text ++ post)).2) : starts text = true := by
  obtain ⟨middle, hmiddle⟩ := exists_append_of_suffix (read_suffix (text ++ post)) hrest
  rw [starts_iff] at h ⊢
  rwa [read_of_append (Prod.ext rfl hmiddle)]

end Numeral

/-! ## Lexemes -/

namespace Lexeme

variable {lexeme : Lexeme} {source : List Char} {quote : Char}

theorem scanString_of_append (h : scanString quote (text ++ post) = (lexeme, rest ++ post))
    (hlast : rest = [] → lexeme ≠ .atom .badString) : scanString quote text = (lexeme, rest) := by
  unfold scanString at h
  split at h
  · next value _ heq =>
      obtain ⟨rfl, rfl⟩ := Prod.mk.inj h
      rw [scanString, quoted_of_append heq (by simp)]
  · next heq =>
      obtain ⟨rfl, rfl⟩ := Prod.mk.inj h
      rw [scanString, quoted_of_append heq fun _ hnil => hlast hnil rfl]

theorem scanUrl_of_append (h : scanUrl (text ++ post) = (lexeme, rest ++ post)) :
    scanUrl text = (lexeme, rest) := by
  unfold scanUrl at h
  split at h
  all_goals
    next heq =>
      obtain ⟨rfl, rfl⟩ := Prod.mk.inj h
      rw [scanUrl, url_of_append heq]

theorem ident_of_append_of_not_makesEscape (hrest : (ident (text ++ post)).2 = rest ++ post)
    (hcut : ¬ MakesEscape rest post) : ident text = ((ident (text ++ post)).1, rest) := by
  apply ident_of_append (Prod.ext rfl hrest)
  rintro rfl hhead
  exact hcut ⟨hhead, .inl rfl⟩

theorem scanNumeric_of_append (h : scanNumeric (text ++ post) = (lexeme, rest ++ post))
    (hcut : ¬ MakesEscape rest post) : scanNumeric text = (lexeme, rest) := by
  have hsuffix : rest ++ post <:+ (Numeral.read (text ++ post)).2 := by
    have := scanNumeric_suffix (text ++ post)
    rwa [h] at this
  obtain ⟨middle, hmiddle⟩ :=
    exists_append_of_suffix (Numeral.read_suffix (text ++ post)) hsuffix
  have hread := Numeral.read_of_append (Prod.ext rfl hmiddle)
  unfold scanNumeric at h ⊢
  rw [hread]
  dsimp only at h ⊢
  rw [hmiddle] at h
  split at h
  · next hident =>
      obtain ⟨rfl, hrest⟩ := Prod.mk.inj h
      have hident' : rest ++ post <:+ (ident (middle ++ post)).2 := hrest ▸ List.suffix_refl _
      rw [if_pos (startsIdent_of_append hident hident'),
        ident_of_append_of_not_makesEscape hrest hcut]
  · next hident =>
      split at h
      · next tail heq =>
          obtain ⟨rfl, rfl⟩ := Prod.mk.inj h
          obtain ⟨middle', rfl, htail⟩ := exists_cons_of_append heq.symm (List.suffix_refl _)
          have hident' := not_startsIdent_of_append hident
            (not_makesEscape_cons (by decide) (by decide))
          rw [if_neg hident', List.append_cancel_right htail]
          rfl
      · next hpercent =>
          obtain ⟨rfl, hrest⟩ := Prod.mk.inj h
          obtain rfl : middle = rest := List.append_cancel_right hrest
          rw [if_neg (not_startsIdent_of_append hident hcut)]
          split
          · next tail => exact absurd rfl (hpercent (tail ++ post))
          · rfl

theorem starts_of_scanNumeric (hstarts : Numeral.starts (text ++ post) = true)
    (h : scanNumeric (text ++ post) = (lexeme, rest ++ post)) : Numeral.starts text = true := by
  have hsuffix := scanNumeric_suffix (text ++ post)
  rw [h] at hsuffix
  exact Numeral.starts_of_append hstarts hsuffix

theorem scanIdentLike_of_paren {name : List Char} (h : ident text = (name, '(' :: rest)) :
    scanIdentLike text =
      if equalsIgnoringCase (String.ofList name) "url" && !opensQuoted rest then scanUrl rest
      else (.function (String.ofList name), rest) := by
  rw [scanIdentLike, h]
  rfl

theorem scanIdentLike_of_not_paren {name : List Char} (h : ident text = (name, rest))
    (hparen : ∀ tail, rest ≠ '(' :: tail) :
    scanIdentLike text = (.atom (.ident (String.ofList name)), rest) := by
  rw [scanIdentLike, h]
  dsimp only
  split
  · next tail => exact absurd rfl (hparen tail)
  · rfl

theorem scanIdentLike_of_append (h : scanIdentLike (text ++ post) = (lexeme, rest ++ post))
    (hcut : ¬ MakesEscape rest post)
    (hquote : ∀ name, lexeme = .function name → opensQuoted rest = opensQuoted (rest ++ post)) :
    scanIdentLike text = (lexeme, rest) := by
  have hsuffix : rest ++ post <:+ (ident (text ++ post)).2 := by
    have := scanIdentLike_suffix (text ++ post)
    rwa [h] at this
  obtain ⟨middle, hmiddle⟩ := exists_append_of_suffix (ident_suffix (text ++ post)) hsuffix
  by_cases hparen : ∃ tail, middle ++ post = '(' :: tail
  · obtain ⟨tail, htail⟩ := hparen
    rw [scanIdentLike_of_paren (Prod.ext rfl (hmiddle.trans htail))] at h
    have hrest : rest ++ post <:+ tail := by
      split at h
      · have := scanUrl_suffix tail
        rwa [h] at this
      · exact (Prod.mk.inj h).2 ▸ List.suffix_refl _
    obtain ⟨middle', rfl, rfl⟩ := exists_cons_of_append htail.symm hrest
    rw [scanIdentLike_of_paren (ident_of_append_of_not_makesEscape hmiddle
      (not_makesEscape_cons (by decide) (by decide)))]
    split at h
    · next hurl =>
        have hurl' : (equalsIgnoringCase (String.ofList (ident (text ++ post)).1) "url" &&
            !opensQuoted middle') = true := by
          rw [Bool.and_eq_true, Bool.not_eq_true', ← Bool.not_eq_true] at hurl ⊢
          exact ⟨hurl.1, mt opensQuoted_append hurl.2⟩
        rw [if_pos hurl']
        exact scanUrl_of_append h
    · next hurl =>
        obtain ⟨rfl, hrest⟩ := Prod.mk.inj h
        obtain rfl := List.append_cancel_right hrest
        rw [hquote _ rfl, if_neg hurl]
  · rw [not_exists] at hparen
    have hident : ident (text ++ post) = ((ident (text ++ post)).1, middle ++ post) :=
      Prod.ext rfl hmiddle
    rw [scanIdentLike_of_not_paren hident hparen] at h
    obtain ⟨rfl, hrest⟩ := Prod.mk.inj h
    obtain rfl := List.append_cancel_right hrest
    apply scanIdentLike_of_not_paren (ident_of_append_of_not_makesEscape hmiddle hcut)
    rintro tail rfl
    exact hparen (tail ++ post) rfl

/-- A name stops before a backslash and a newline, so it leaves them where it begins there. -/
theorem not_makesEscape_of_ident (hrest : (ident (text ++ post)).2 = rest ++ post)
    (hcut : ¬ MakesEscape rest post) : ¬ MakesEscape text post := by
  intro h
  obtain ⟨tail, rfl⟩ := List.head?_eq_some_iff.1 h.1
  have hstop : ident ('\\' :: '\n' :: tail) = ([], ['\\'] ++ '\n' :: tail) := by
    rw [ident, if_neg (by decide), if_neg (by simp [startsEscape])]
    rfl
  apply hcut
  refine ⟨h.1, .inl ?_⟩
  obtain rfl | rfl := h.2
  · rw [List.singleton_append, hstop] at hrest
    exact (List.append_cancel_right hrest).symm
  · rw [List.cons_append, List.singleton_append, ident, if_pos (by decide), hstop] at hrest
    exact (List.append_cancel_right hrest).symm

theorem startsName_of_append
    (h : ((text ++ post).head?.any isIdent || startsEscape (text ++ post)) = true)
    (hrest : (ident (text ++ post)).2 = rest ++ post) :
    (text.head?.any isIdent || startsEscape text) = true := by
  cases text with
  | nil =>
      cases post with
      | nil => exact h
      | cons d post =>
          have hsuffix : rest ++ d :: post <:+ post := by
            rw [← hrest]
            simp only [List.nil_append, List.head?_cons, Option.any_some, Bool.or_eq_true] at h
            exact h.elim ident_suffix_of_isIdent ident_suffix_of_startsEscape
          exact absurd hsuffix not_append_cons_suffix
  | cons c text =>
      rw [Bool.or_eq_true] at h ⊢
      exact h.imp_right startsEscape_of_append

theorem not_startsName_of_append
    (h : ¬ ((text ++ post).head?.any isIdent || startsEscape (text ++ post)) = true)
    (hcut : ¬ MakesEscape text post) : ¬ (text.head?.any isIdent || startsEscape text) = true := by
  cases text with
  | nil => simp [startsEscape]
  | cons c text =>
      rw [Bool.or_eq_true, not_or] at h ⊢
      refine ⟨h.1, not_startsEscape_of_append h.2 ?_⟩
      rintro rfl rfl hhead
      exact hcut ⟨hhead, .inl rfl⟩

theorem startsIdent_eq_of_ident (hrest : (ident (text ++ post)).2 = rest ++ post)
    (hcut : ¬ MakesEscape rest post) : startsIdent text = startsIdent (text ++ post) := by
  rw [Bool.eq_iff_iff]
  have hcut' := not_makesEscape_of_ident hrest hcut
  have hsuffix : rest ++ post <:+ (ident (text ++ post)).2 := hrest ▸ List.suffix_refl _
  exact ⟨fun h => by_contra fun h' => not_startsIdent_of_append h' hcut' h,
    fun h => startsIdent_of_append h hsuffix⟩

theorem scanHash_of_append (h : scanHash (text ++ post) = (lexeme, rest ++ post))
    (hcut : ¬ MakesEscape rest post) : scanHash text = (lexeme, rest) := by
  unfold scanHash at h ⊢
  split at h
  · next hname =>
      obtain ⟨rfl, hrest⟩ := Prod.mk.inj h
      rw [if_pos (startsName_of_append hname hrest),
        ident_of_append_of_not_makesEscape hrest hcut, startsIdent_eq_of_ident hrest hcut]
  · next hname =>
      obtain ⟨rfl, hrest⟩ := Prod.mk.inj h
      obtain rfl := List.append_cancel_right hrest
      rw [if_neg (not_startsName_of_append hname hcut)]

theorem scanAtKeyword_of_append (h : scanAtKeyword (text ++ post) = (lexeme, rest ++ post))
    (hcut : ¬ MakesEscape rest post) : scanAtKeyword text = (lexeme, rest) := by
  unfold scanAtKeyword at h ⊢
  split at h
  · next hident =>
      obtain ⟨rfl, hrest⟩ := Prod.mk.inj h
      have hident' : rest ++ post <:+ (ident (text ++ post)).2 := hrest ▸ List.suffix_refl _
      rw [if_pos (startsIdent_of_append hident hident'),
        ident_of_append_of_not_makesEscape hrest hcut]
  · next hident =>
      obtain ⟨rfl, hrest⟩ := Prod.mk.inj h
      obtain rfl := List.append_cancel_right hrest
      rw [if_neg (not_startsIdent_of_append hident hcut)]

theorem scanHyphen_of_append (h : scanHyphen (text ++ post) = (lexeme, rest ++ post))
    (hcut : ¬ MakesEscape rest post)
    (hquote : ∀ name, lexeme = .function name → opensQuoted rest = opensQuoted (rest ++ post)) :
    scanHyphen text = (lexeme, rest) := by
  unfold scanHyphen at h ⊢
  rw [← List.cons_append] at h
  split at h
  · next hstarts =>
      rw [if_pos (starts_of_scanNumeric hstarts h)]
      exact scanNumeric_of_append h hcut
  · next hstarts =>
      rw [if_neg fun hstarts' => hstarts (Numeral.starts_append hstarts')]
      split at h
      · next tail heq =>
          obtain ⟨rfl, rfl⟩ := Prod.mk.inj h
          obtain ⟨text, rfl, htail⟩ := exists_cons_of_append heq.symm (List.suffix_cons _ _)
          obtain ⟨text, rfl, htail'⟩ := exists_cons_of_append htail (List.suffix_refl _)
          rw [List.append_cancel_right htail']
          rfl
      · next hclose =>
          split
          · next tail => exact (hclose (tail ++ post) rfl).elim
          · split at h
            · next hident =>
                have hsuffix := scanIdentLike_suffix ('-' :: text ++ post)
                rw [← List.cons_append] at h
                rw [h] at hsuffix
                rw [if_pos (startsIdent_of_append hident hsuffix)]
                exact scanIdentLike_of_append h hcut hquote
            · next hident =>
                obtain ⟨rfl, hrest⟩ := Prod.mk.inj h
                obtain rfl := List.append_cancel_right hrest
                have hcut' : ¬ MakesEscape ('-' :: text) post := by
                  rintro ⟨hhead, htext | htext⟩
                  · cases htext
                  · exact hcut ⟨hhead, .inl (List.cons.inj htext).2⟩
                rw [if_neg (not_startsIdent_of_append hident hcut')]

theorem scanLessThan_of_append (h : scanLessThan (text ++ post) = (lexeme, rest ++ post)) :
    scanLessThan text = (lexeme, rest) := by
  unfold scanLessThan at h ⊢
  split at h
  · next tail heq =>
      obtain ⟨rfl, rfl⟩ := Prod.mk.inj h
      have hsuffix := (List.suffix_cons '-' (rest ++ post)).trans (List.suffix_cons '-' _)
      obtain ⟨text, rfl, htail⟩ := exists_cons_of_append heq.symm hsuffix
      obtain ⟨text, rfl, htail'⟩ := exists_cons_of_append htail (List.suffix_cons _ _)
      obtain ⟨text, rfl, htail''⟩ := exists_cons_of_append htail' (List.suffix_refl _)
      rw [List.append_cancel_right htail'']
      rfl
  · next hopen =>
      obtain ⟨rfl, hrest⟩ := Prod.mk.inj h
      obtain rfl := List.append_cancel_right hrest
      split
      · next tail => exact (hopen (tail ++ post) rfl).elim
      · rfl

theorem scanSlash_of_append (h : scanSlash (text ++ post) = (lexeme, rest ++ post)) :
    scanSlash text = (lexeme, rest) := by
  unfold scanSlash at h ⊢
  split at h
  · next tail heq =>
      obtain ⟨rfl, hrest⟩ := Prod.mk.inj h
      obtain ⟨text, rfl, rfl⟩ := exists_cons_of_append heq.symm (hrest ▸ comment_suffix tail)
      change (_, (comment text).2) = _
      rw [comment_of_append (Prod.ext rfl hrest)]
  · next hopen =>
      obtain ⟨rfl, hrest⟩ := Prod.mk.inj h
      obtain rfl := List.append_cancel_right hrest
      split
      · next tail => exact (hopen (tail ++ post) rfl).elim
      · rfl

/-- A lexeme that ends before the cut is the same without what stands behind the cut. -/
theorem scan_of_append (h : scan c (text ++ post) = (lexeme, rest ++ post))
    (hcut : ¬ MakesEscape rest post)
    (hlast : rest = [] → lexeme ≠ .atom .badString ∧ lexeme ≠ .atom (.delim '\\'))
    (hquote : ∀ name, lexeme = .function name → opensQuoted rest = opensQuoted (rest ++ post)) :
    scan c text = (lexeme, rest) := by
  unfold scan at h ⊢
  simp only [← List.cons_append] at h
  split at h
  · next hblank =>
      obtain ⟨rfl, hrest⟩ := Prod.mk.inj h
      rw [if_pos hblank, dropWhile_of_append hrest]
  next hblank =>
  rw [if_neg hblank]
  split at h
  · next hdigit =>
      rw [if_pos hdigit]
      exact scanNumeric_of_append h hcut
  next hdigit =>
  rw [if_neg hdigit]
  split at h
  · next hstart =>
      rw [if_pos hstart]
      exact scanIdentLike_of_append h hcut hquote
  next hstart =>
  rw [if_neg hstart]
  split at h
  case h_1 | h_2 => exact scanString_of_append h fun hnil => (hlast hnil).1
  case h_3 => exact scanHash_of_append h hcut
  case h_7 => exact scanHyphen_of_append h hcut hquote
  case h_8 => exact scanSlash_of_append h
  case h_11 => exact scanLessThan_of_append h
  case h_12 => exact scanAtKeyword_of_append h hcut
  case h_17 =>
    split at h
    · next hescape =>
        rw [if_pos (startsEscape_of_append hescape)]
        exact scanIdentLike_of_append h hcut hquote
    · next hescape =>
        obtain ⟨rfl, hrest⟩ := Prod.mk.inj h
        obtain rfl := List.append_cancel_right hrest
        rw [if_neg (not_startsEscape_of_append hescape fun hnil => absurd rfl (hlast hnil).2)]
  case h_18 | h_19 =>
    split at h
    · next hstarts =>
        rw [if_pos (starts_of_scanNumeric hstarts h)]
        exact scanNumeric_of_append h hcut
    · next hstarts =>
        obtain ⟨rfl, hrest⟩ := Prod.mk.inj h
        obtain rfl := List.append_cancel_right hrest
        rw [if_neg fun hstarts' => hstarts (Numeral.starts_append hstarts')]
  all_goals
    obtain ⟨rfl, hrest⟩ := Prod.mk.inj h
    obtain rfl := List.append_cancel_right hrest
    rfl

end Lexeme

end CssSelectors
