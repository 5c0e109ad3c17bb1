import CssSelectors.Proofs.Tokens.Lexing

/-!
# Cutting text behind a name

A reader that stops before the place where a text is cut reads the same without the part
behind the cut. There are two exceptions: a backslash that loses the newline behind it counts
as an escape, and quoted text that loses the newline which spoils it ends well.
-/

namespace CssSelectors

open CodePoint

variable {text post rest : List Char} {c : Char} {tail whole : List Char}

/-! ## Reading up to a cut -/

theorem not_append_cons_suffix : ¬ rest ++ c :: post <:+ post := by
  intro h
  have hlength := h.length_le
  rw [List.length_append, List.length_cons] at hlength
  omega

/-- A reader that takes the first code point and stops before the cut takes it from the part
before the cut. -/
theorem exists_cons_of_append (h : c :: tail = text ++ post) (hrest : rest ++ post <:+ tail) :
    ∃ text', text = c :: text' ∧ tail = text' ++ post := by
  cases text with
  | nil =>
      rw [List.nil_append] at h
      exact absurd (h ▸ hrest) not_append_cons_suffix
  | cons d text' =>
      obtain ⟨rfl, rfl⟩ := List.cons.inj h
      exact ⟨text', rfl, rfl⟩

/-- What is left of a text that reaches beyond the cut reaches up to the cut. -/
theorem exists_append_of_suffix (h : whole <:+ text ++ post) (hrest : rest ++ post <:+ whole) :
    ∃ middle, whole = middle ++ post := by
  have hlength : post.length ≤ whole.length := by
    have := hrest.length_le
    rw [List.length_append] at this
    omega
  obtain ⟨middle, hmiddle⟩ :=
    List.suffix_of_suffix_length_le (List.suffix_append text post) h hlength
  exact ⟨middle, hmiddle.symm⟩

theorem dropWhile_of_append {p : Char → Bool} (h : (text ++ post).dropWhile p = rest ++ post) :
    text.dropWhile p = rest := by
  generalize hwhole : text ++ post = whole at h
  induction whole generalizing text with
  | nil =>
      obtain ⟨rfl, rfl⟩ := List.append_eq_nil_iff.1 hwhole
      simpa using h
  | cons c tail ih =>
      rw [List.dropWhile_cons] at h
      split at h
      · next hc =>
          obtain ⟨text', rfl, rfl⟩ :=
            exists_cons_of_append hwhole.symm (h ▸ List.dropWhile_suffix p)
          rw [List.dropWhile_cons_of_pos hc]
          exact ih rfl h
      · next hc =>
          obtain rfl : text = rest := List.append_cancel_right (hwhole.trans h)
          cases text with
          | nil => rfl
          | cons d text =>
              obtain ⟨rfl, -⟩ := List.cons.inj hwhole
              exact List.dropWhile_cons_of_neg hc

theorem takeWhile_of_append {p : Char → Bool} (h : (text ++ post).dropWhile p = rest ++ post) :
    text.takeWhile p = (text ++ post).takeWhile p := by
  have hsplit : (text ++ post).takeWhile p ++ (rest ++ post) = text ++ post := by
    rw [← h, List.takeWhile_append_dropWhile]
  have hsplit' : text.takeWhile p ++ rest = text := by
    rw [← dropWhile_of_append h, List.takeWhile_append_dropWhile]
  rw [← List.append_assoc] at hsplit
  exact List.append_cancel_right (hsplit'.trans (List.append_cancel_right hsplit).symm)

theorem takeWhile_of_append_eq_nil {p : Char → Bool} (h : (text ++ post).takeWhile p = []) :
    text.takeWhile p = [] := by
  have hdrop : (text ++ post).dropWhile p = text ++ post := by
    have := List.takeWhile_append_dropWhile (p := p) (l := text ++ post)
    rwa [h, List.nil_append] at this
  rw [takeWhile_of_append hdrop, h]

theorem takeWhile_take_of_append {p : Char → Bool} {n : Nat}
    (h : (((text ++ post).take n).takeWhile p).length ≤ text.length) :
    ((text ++ post).take n).takeWhile p = (text.take n).takeWhile p := by
  rw [List.take_append, List.takeWhile_append] at h ⊢
  split
  · next hall =>
      rw [if_pos hall, List.length_append] at h
      have hall' : (text.take n).takeWhile p = text.take n :=
        (List.takeWhile_prefix p).eq_of_length hall
      rw [hall']
      by_cases hn : n ≤ text.length
      · simp [hn]
      · rw [List.take_of_length_le (by omega)] at h ⊢
        have hnil : ((post.take (n - text.length)).takeWhile p).length = 0 := by omega
        rw [List.eq_nil_of_length_eq_zero hnil, List.append_nil]
  · rfl

/-! ## Names, quoted text and addresses -/

namespace Lexeme

variable {name : List Char} {value : Option (List Char)} {quote : Char}

theorem skipBlank_of_append (h : skipBlank (text ++ post) = rest ++ post) :
    skipBlank text = rest := by
  cases text with
  | nil =>
      cases post with
      | nil => simpa [skipBlank] using h
      | cons c post =>
          rw [List.nil_append, skipBlank] at h
          split at h
          · exact absurd ⟨[], h.symm⟩ not_append_cons_suffix
          · exact (List.self_eq_append_left.1 h).symm
  | cons c text =>
      rw [List.cons_append, skipBlank] at h
      rw [skipBlank]
      split at h
      · next hc =>
          rw [if_pos hc]
          exact List.append_cancel_right h
      · next hc =>
          rw [if_neg hc]
          exact List.append_cancel_right h

theorem escape_suffix_of_cons (c : Char) (text : List Char) : (escape (c :: text)).2 <:+ text := by
  unfold escape
  split
  · exact List.suffix_refl _
  · rw [List.drop_succ_cons]
    exact (skipBlank_suffix _).trans (List.drop_suffix _ _)

theorem eq_nil_of_escape (hrest : rest ++ post <:+ (escape post).2) : post = [] := by
  cases post with
  | nil => rfl
  | cons c post =>
      exact absurd (hrest.trans (escape_suffix_of_cons c post)) not_append_cons_suffix

theorem escape_of_append (h : escape (text ++ post) = (c, rest ++ post)) :
    escape text = (c, rest) := by
  cases text with
  | nil =>
      rw [List.nil_append] at h
      have hsuffix : rest ++ post <:+ (escape post).2 := h ▸ List.suffix_refl (rest ++ post)
      obtain rfl := eq_nil_of_escape hsuffix
      rw [h, List.append_nil]
  | cons d text =>
      unfold escape at h
      split at h
      · next hdigits =>
          obtain ⟨rfl, hrest⟩ := Prod.mk.inj h
          obtain rfl := List.append_cancel_right hrest
          rw [takeWhile_take_of_append (by rw [hdigits]; exact Nat.zero_le _)] at hdigits
          rw [escape, hdigits]
      · next digit digits hdigits =>
          obtain ⟨rfl, hrest⟩ := Prod.mk.inj h
          have hprefix : (digit :: digits).length ≤ (d :: text ++ post).length := by
            rw [← hdigits]
            exact ((List.takeWhile_prefix _).trans (List.take_prefix _ _)).length_le
          have hle : (digit :: digits).length ≤ (d :: text).length := by
            have := (skipBlank_suffix ((d :: text ++ post).drop (digits.length + 1))).length_le
            rw [hrest] at this
            simp only [List.length_drop, List.length_append, List.length_cons] at this hprefix ⊢
            omega
          rw [List.length_cons] at hle
          rw [List.drop_append_of_le_length hle] at hrest
          rw [takeWhile_take_of_append (by rwa [hdigits])] at hdigits
          rw [escape, hdigits]
          dsimp only
          rw [skipBlank_of_append hrest]

theorem startsEscape_of_append (h : startsEscape (c :: (text ++ post)) = true) :
    startsEscape (c :: text) = true := by
  rw [startsEscape_cons_iff] at h ⊢
  refine ⟨h.1, fun hhead => h.2 ?_⟩
  rw [List.head?_append, hhead]
  rfl

theorem not_startsEscape_of_append (h : ¬ startsEscape (c :: (text ++ post)) = true)
    (hcut : text = [] → c = '\\' → post.head? ≠ some '\n') :
    ¬ startsEscape (c :: text) = true := by
  rw [startsEscape_cons_iff] at h ⊢
  rintro ⟨rfl, hhead⟩
  apply h
  refine ⟨rfl, ?_⟩
  cases text with
  | nil => exact hcut rfl rfl
  | cons d text => exact hhead

/-- An escape that stops before the cut, and the part of the text it leaves before the cut. -/
theorem exists_escape_of_append (hrest : rest ++ post <:+ (escape (text ++ post)).2) :
    ∃ middle, (escape (text ++ post)).2 = middle ++ post ∧
      escape text = ((escape (text ++ post)).1, middle) := by
  obtain ⟨middle, hmiddle⟩ := exists_append_of_suffix (escape_suffix (text ++ post)) hrest
  exact ⟨middle, hmiddle, escape_of_append (Prod.ext rfl hmiddle)⟩

theorem ident_of_append (h : ident (text ++ post) = (name, rest ++ post))
    (hcut : rest = ['\\'] → post.head? ≠ some '\n') : ident text = (name, rest) := by
  generalize hwhole : text ++ post = whole at h
  fun_induction ident whole generalizing text name with
  | case1 =>
      obtain ⟨rfl, rfl⟩ := List.append_eq_nil_iff.1 hwhole
      simpa [ident] using h
  | case2 c tail hc read =>
      rename_i ih
      obtain ⟨rfl, hrest⟩ := Prod.mk.inj h
      obtain ⟨text', rfl, rfl⟩ :=
        exists_cons_of_append hwhole.symm (hrest ▸ ident_suffix tail)
      rw [ident, if_pos hc, ih rfl (Prod.ext rfl hrest)]
  | case3 c tail hc hescape escaped =>
      rename_i ih
      obtain ⟨rfl, hrest⟩ := Prod.mk.inj h
      have hsuffix : rest ++ post <:+ (escape tail).2 := hrest ▸ ident_suffix _
      obtain ⟨text', rfl, rfl⟩ :=
        exists_cons_of_append hwhole.symm (hsuffix.trans (escape_suffix tail))
      obtain ⟨middle, hmiddle, hescaped⟩ := exists_escape_of_append hsuffix
      rw [ident, if_neg hc, if_pos (startsEscape_of_append hescape), hescaped]
      dsimp only
      rw [ih hmiddle.symm (Prod.ext rfl hrest)]
  | case4 c tail hc hescape =>
      obtain ⟨rfl, hrest⟩ := Prod.mk.inj h
      obtain rfl : text = rest := List.append_cancel_right (hwhole.trans hrest)
      cases text with
      | nil => rw [ident]
      | cons d text =>
          obtain ⟨rfl, rfl⟩ := List.cons.inj hwhole
          have hescape' := not_startsEscape_of_append hescape
            fun hnil hc => hcut (hnil ▸ hc ▸ rfl)
          rw [ident, if_neg hc, if_neg hescape']

theorem quoted_of_append (h : quoted quote (text ++ post) = (value, rest ++ post))
    (hcut : value = none → rest ≠ []) : quoted quote text = (value, rest) := by
  generalize hwhole : text ++ post = whole at h
  fun_induction quoted quote whole generalizing text value with
  | case1 =>
      obtain ⟨rfl, rfl⟩ := List.append_eq_nil_iff.1 hwhole
      simpa [quoted] using h
  | case2 tail =>
      obtain ⟨rfl, rfl⟩ := Prod.mk.inj h
      obtain ⟨text', rfl, htail⟩ := exists_cons_of_append hwhole.symm (List.suffix_refl _)
      rw [quoted, if_pos rfl, List.append_cancel_right htail]
  | case3 tail hquote =>
      obtain ⟨rfl, hrest⟩ := Prod.mk.inj h
      obtain rfl : text = rest := List.append_cancel_right (hwhole.trans hrest)
      obtain ⟨d, text', rfl⟩ := List.exists_cons_of_ne_nil (hcut rfl)
      obtain ⟨rfl, -⟩ := List.cons.inj hwhole
      rw [quoted, if_neg hquote, if_pos rfl]
  | case4 hquote hnewline =>
      obtain ⟨rfl, hrest⟩ := Prod.mk.inj h
      obtain ⟨rfl, rfl⟩ := List.append_eq_nil_iff.1 hrest.symm
      rw [List.append_nil] at hwhole
      rw [hwhole, quoted, if_neg hquote, if_neg hnewline, if_pos rfl, if_pos rfl]
  | case5 tail hnil escaped hquote hnewline hescape =>
      rename_i ih
      obtain ⟨rfl, hrest⟩ := Prod.mk.inj h
      have hsuffix : rest ++ post <:+ (escape tail).2 := hrest ▸ quoted_suffix _ _
      obtain ⟨text', rfl, rfl⟩ :=
        exists_cons_of_append hwhole.symm (hsuffix.trans (escape_suffix tail))
      obtain ⟨middle, hmiddle, hescaped⟩ := exists_escape_of_append hsuffix
      have hread := ih (fun hnone => hcut (Option.map_eq_none_iff.2 hnone)) hmiddle.symm
        (Prod.ext rfl hrest)
      have hnil' : text' ≠ [] := by
        rintro rfl
        exact hnil (eq_nil_of_escape hsuffix)
      rw [quoted, if_neg hquote, if_neg hnewline, if_pos rfl, if_neg hnil',
        if_pos (startsEscape_of_append hescape), hescaped]
      dsimp only
      rw [hread]
      rfl
  | case6 tail hnil hquote hnewline hescape ih =>
      obtain ⟨d, tail, rfl⟩ := List.exists_cons_of_ne_nil hnil
      have hsuffix : rest ++ post <:+ tail := (Prod.mk.inj h).2 ▸ quoted_suffix _ _
      obtain ⟨text', rfl, htail⟩ :=
        exists_cons_of_append hwhole.symm (hsuffix.trans (List.suffix_cons _ _))
      obtain ⟨text'', rfl, rfl⟩ := exists_cons_of_append htail hsuffix
      rw [← List.cons_append] at hescape
      have hescape' := not_startsEscape_of_append hescape (by simp)
      rw [quoted, if_neg hquote, if_neg hnewline, if_pos rfl, if_neg (by simp), if_neg hescape']
      exact ih hcut rfl h
  | case7 c tail hquote hnewline hbackslash ih =>
      obtain ⟨rfl, hrest⟩ := Prod.mk.inj h
      obtain ⟨text', rfl, rfl⟩ := exists_cons_of_append hwhole.symm (hrest ▸ quoted_suffix _ _)
      have hread := ih (fun hnone => hcut (Option.map_eq_none_iff.2 hnone)) rfl (Prod.ext rfl hrest)
      rw [quoted, if_neg hquote, if_neg hnewline, if_neg hbackslash, hread]
      rfl

theorem comment_of_append {body : List Char} (h : comment (text ++ post) = (body, rest ++ post)) :
    comment text = (body, rest) := by
  generalize hwhole : text ++ post = whole at h
  fun_induction comment whole generalizing text body with
  | case1 =>
      obtain ⟨rfl, rfl⟩ := List.append_eq_nil_iff.1 hwhole
      simpa [comment] using h
  | case2 tail =>
      obtain ⟨rfl, rfl⟩ := Prod.mk.inj h
      obtain ⟨text', rfl, htail⟩ := exists_cons_of_append hwhole.symm (List.suffix_cons _ _)
      obtain ⟨text'', rfl, htail'⟩ := exists_cons_of_append htail (List.suffix_refl _)
      rw [comment, List.append_cancel_right htail']
  | case3 c tail hclose read =>
      rename_i ih
      obtain ⟨rfl, hrest⟩ := Prod.mk.inj h
      obtain ⟨text', rfl, rfl⟩ := exists_cons_of_append hwhole.symm (hrest ▸ comment_suffix tail)
      rw [comment, ih rfl (Prod.ext rfl hrest)]
      intro tail hc htail
      exact hclose _ hc (by rw [htail]; rfl)

theorem skipBadUrl_suffix_of_cons (c : Char) (text : List Char) :
    skipBadUrl (c :: text) <:+ text := by
  rw [skipBadUrl]
  split
  · exact List.suffix_refl _
  · split
    · exact (skipBadUrl_suffix _).trans (escape_suffix text)
    · exact skipBadUrl_suffix text

theorem eq_nil_of_skipBadUrl (h : skipBadUrl post = rest ++ post) : post = [] := by
  cases post with
  | nil => rfl
  | cons c post =>
      exact absurd (h ▸ skipBadUrl_suffix_of_cons c post) not_append_cons_suffix

theorem not_startsEscape_of_skipBadUrl (hescape : ¬ startsEscape (c :: (text ++ post)) = true)
    (h : skipBadUrl (text ++ post) = rest ++ post) : ¬ startsEscape (c :: text) = true := by
  apply not_startsEscape_of_append hescape
  intro htext _
  rw [htext, List.nil_append] at h
  simp [eq_nil_of_skipBadUrl h]

theorem skipBadUrl_of_append (h : skipBadUrl (text ++ post) = rest ++ post) :
    skipBadUrl text = rest := by
  generalize hwhole : text ++ post = whole at h
  fun_induction skipBadUrl whole generalizing text with
  | case1 =>
      obtain ⟨rfl, rfl⟩ := List.append_eq_nil_iff.1 hwhole
      simpa [skipBadUrl] using h
  | case2 tail =>
      subst h
      obtain ⟨text', rfl, htail⟩ := exists_cons_of_append hwhole.symm (List.suffix_refl _)
      rw [skipBadUrl, if_pos rfl, List.append_cancel_right htail]
  | case3 c tail hclose hescape ih =>
      have hsuffix : rest ++ post <:+ (escape tail).2 := h ▸ skipBadUrl_suffix _
      obtain ⟨text', rfl, rfl⟩ :=
        exists_cons_of_append hwhole.symm (hsuffix.trans (escape_suffix tail))
      obtain ⟨middle, hmiddle, hescaped⟩ := exists_escape_of_append hsuffix
      rw [skipBadUrl, if_neg hclose, if_pos (startsEscape_of_append hescape), hescaped]
      exact ih hmiddle.symm h
  | case4 c tail hclose hescape ih =>
      obtain ⟨text', rfl, rfl⟩ := exists_cons_of_append hwhole.symm (h ▸ skipBadUrl_suffix tail)
      rw [skipBadUrl, if_neg hclose, if_neg (not_startsEscape_of_skipBadUrl hescape h)]
      exact ih rfl h

theorem urlEnd_of_append (h : urlEnd (text ++ post) = (value, rest ++ post)) :
    urlEnd text = (value, rest) := by
  unfold urlEnd at h
  split at h
  · next hblank =>
      obtain ⟨rfl, hrest⟩ := Prod.mk.inj h
      obtain ⟨rfl, rfl⟩ := List.append_eq_nil_iff.1 hrest.symm
      rw [List.append_nil] at hblank
      rw [urlEnd, hblank]
  · next c tail hblank =>
      have hsuffix : rest ++ post <:+ c :: tail := by
        split at h
        · exact (Prod.mk.inj h).2 ▸ List.suffix_cons _ _
        · exact (Prod.mk.inj h).2 ▸ skipBadUrl_suffix _
      obtain ⟨middle, hmiddle⟩ :=
        exists_append_of_suffix (hblank ▸ List.dropWhile_suffix isBlank) hsuffix
      rw [hmiddle] at hblank
      rw [urlEnd, dropWhile_of_append hblank]
      split at h
      · next hc =>
          subst hc
          obtain ⟨rfl, rfl⟩ := Prod.mk.inj h
          obtain ⟨text', rfl, htail⟩ := exists_cons_of_append hmiddle (List.suffix_refl _)
          simp [List.append_cancel_right htail]
      · next hc =>
          obtain ⟨rfl, hrest⟩ := Prod.mk.inj h
          rw [hmiddle] at hrest
          cases middle with
          | nil =>
              rw [eq_nil_of_skipBadUrl hrest] at hmiddle
              cases hmiddle
          | cons d middle =>
              obtain ⟨rfl, -⟩ := List.cons.inj hmiddle
              simp [hc, skipBadUrl_of_append hrest]

theorem urlBody_of_append (h : urlBody (text ++ post) = (value, rest ++ post)) :
    urlBody text = (value, rest) := by
  generalize hwhole : text ++ post = whole at h
  fun_induction urlBody whole generalizing text value with
  | case1 =>
      obtain ⟨rfl, rfl⟩ := List.append_eq_nil_iff.1 hwhole
      simpa [urlBody] using h
  | case2 tail =>
      obtain ⟨rfl, rfl⟩ := Prod.mk.inj h
      obtain ⟨text', rfl, htail⟩ := exists_cons_of_append hwhole.symm (List.suffix_refl _)
      rw [urlBody, if_pos rfl, List.append_cancel_right htail]
  | case3 c tail hclose hblank =>
      obtain ⟨text', rfl, rfl⟩ :=
        exists_cons_of_append hwhole.symm ((Prod.mk.inj h).2 ▸ urlEnd_suffix tail)
      rw [urlBody, if_neg hclose, if_pos hblank]
      exact urlEnd_of_append h
  | case4 c tail hclose hblank hspoilt =>
      obtain ⟨rfl, hrest⟩ := Prod.mk.inj h
      obtain ⟨text', rfl, rfl⟩ := exists_cons_of_append hwhole.symm (hrest ▸ skipBadUrl_suffix tail)
      rw [urlBody, if_neg hclose, if_neg hblank, if_pos hspoilt, skipBadUrl_of_append hrest]
  | case5 tail escaped hclose hblank hspoilt hescape =>
      rename_i ih
      obtain ⟨rfl, hrest⟩ := Prod.mk.inj h
      have hsuffix : rest ++ post <:+ (escape tail).2 := hrest ▸ urlBody_suffix _
      obtain ⟨text', rfl, rfl⟩ :=
        exists_cons_of_append hwhole.symm (hsuffix.trans (escape_suffix tail))
      obtain ⟨middle, hmiddle, hescaped⟩ := exists_escape_of_append hsuffix
      rw [urlBody, if_neg hclose, if_neg hblank, if_neg hspoilt, if_pos rfl,
        if_pos (startsEscape_of_append hescape), hescaped]
      dsimp only
      rw [ih hmiddle.symm (Prod.ext rfl hrest)]
      rfl
  | case6 tail hclose hblank hspoilt hescape =>
      obtain ⟨rfl, hrest⟩ := Prod.mk.inj h
      obtain ⟨text', rfl, rfl⟩ := exists_cons_of_append hwhole.symm (hrest ▸ skipBadUrl_suffix tail)
      rw [urlBody, if_neg hclose, if_neg hblank, if_neg hspoilt, if_pos rfl,
        if_neg (not_startsEscape_of_skipBadUrl hescape hrest), skipBadUrl_of_append hrest]
  | case7 c tail hclose hblank hspoilt hbackslash ih =>
      obtain ⟨rfl, hrest⟩ := Prod.mk.inj h
      obtain ⟨text', rfl, rfl⟩ := exists_cons_of_append hwhole.symm (hrest ▸ urlBody_suffix tail)
      rw [urlBody, if_neg hclose, if_neg hblank, if_neg hspoilt, if_neg hbackslash,
        ih rfl (Prod.ext rfl hrest)]
      rfl

theorem opensQuoted_append_of_ne_nil (h : text.dropWhile isBlank ≠ []) :
    opensQuoted (text ++ post) = opensQuoted text := by
  obtain ⟨c, tail, hdrop⟩ := List.exists_cons_of_ne_nil h
  rw [opensQuoted, opensQuoted, List.dropWhile_append, hdrop]
  rfl

theorem opensQuoted_append (h : opensQuoted text = true) : opensQuoted (text ++ post) = true := by
  rw [opensQuoted_append_of_ne_nil, h]
  intro hnil
  rw [opensQuoted, hnil] at h
  cases h

theorem url_of_append (h : url (text ++ post) = (value, rest ++ post)) :
    url text = (value, rest) := by
  have hsuffix : rest ++ post <:+ (text ++ post).dropWhile isBlank :=
    (Prod.mk.inj h).2 ▸ urlBody_suffix _
  obtain ⟨middle, hmiddle⟩ := exists_append_of_suffix (List.dropWhile_suffix isBlank) hsuffix
  rw [url, hmiddle] at h
  rw [url, dropWhile_of_append hmiddle]
  exact urlBody_of_append h

/-- Text that begins in a backslash, or in a hyphen and a backslash, and is cut before a newline:
the backslash then counts as an escape. -/
def MakesEscape (rest post : List Char) : Prop :=
  post.head? = some '\n' ∧ (rest = ['\\'] ∨ rest = ['-', '\\'])

theorem not_makesEscape_cons (hbackslash : c ≠ '\\') (hhyphen : c ≠ '-') :
    ¬ MakesEscape (c :: text) post := by
  rintro ⟨-, hrest | hrest⟩
  · exact hbackslash (List.cons.inj hrest).1
  · exact hhyphen (List.cons.inj hrest).1

theorem ident_suffix_of_startsIdent_hyphen {d : Char} (h : startsIdent ('-' :: d :: text) = true) :
    (ident ('-' :: d :: text)).2 <:+ text := by
  rw [ident, if_pos (by decide)]
  simp only [startsIdent, Bool.or_eq_true, decide_eq_true_eq] at h
  obtain (hstart | rfl) | hescape := h
  · exact ident_suffix_of_isIdent (by simp [isIdent, hstart])
  · exact ident_suffix_of_isIdent (by decide)
  · exact ident_suffix_of_startsEscape hescape

theorem startsIdent_of_append (h : startsIdent (text ++ post) = true)
    (hrest : rest ++ post <:+ (ident (text ++ post)).2) : startsIdent text = true := by
  cases text with
  | nil =>
      cases post with
      | nil => exact h
      | cons d post =>
          exact absurd (hrest.trans (ident_suffix_of_startsIdent h)) not_append_cons_suffix
  | cons c text =>
      by_cases hc : c = '-'
      · subst hc
        cases text with
        | nil =>
            cases post with
            | nil => exact h
            | cons d post =>
                exact absurd (hrest.trans (ident_suffix_of_startsIdent_hyphen h))
                  not_append_cons_suffix
        | cons d text =>
            simp only [List.cons_append, startsIdent, Bool.or_eq_true] at h ⊢
            exact h.imp_right startsEscape_of_append
      · rw [List.cons_append, startsIdent_cons hc, Bool.or_eq_true] at h
        rw [startsIdent_cons hc, Bool.or_eq_true]
        exact h.imp_right startsEscape_of_append

theorem not_startsIdent_of_append (h : ¬ startsIdent (text ++ post) = true)
    (hcut : ¬ MakesEscape text post) : ¬ startsIdent text = true := by
  cases text with
  | nil => simp [startsIdent]
  | cons c text =>
      by_cases hc : c = '-'
      · subst hc
        cases text with
        | nil => decide
        | cons d text =>
            simp only [List.cons_append, startsIdent, Bool.or_eq_true, not_or] at h ⊢
            refine ⟨h.1, not_startsEscape_of_append h.2 ?_⟩
            rintro rfl rfl hhead
            exact hcut ⟨hhead, .inr rfl⟩
      · rw [List.cons_append, startsIdent_cons hc, Bool.or_eq_true, not_or] at h
        rw [startsIdent_cons hc, Bool.or_eq_true, not_or]
        refine ⟨h.1, not_startsEscape_of_append h.2 ?_⟩
        rintro rfl rfl hhead
        exact hcut ⟨hhead, .inl rfl⟩

end Lexeme

end CssSelectors
