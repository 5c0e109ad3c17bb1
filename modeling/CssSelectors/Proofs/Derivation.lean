import CssSelectors.Proofs.Conservation

/-!
# The grammar of An+B and its derivation

An+B is described twice: by productions that read tokens one after the other, and by
shapes that give a step and an offset to what is left without blank text. Both describe
the same token lists, but for a leading plus sign, which no production reads if blank text
stands directly behind it.
-/

namespace CssSelectors

open Production

variable {tokens rest : List Token}

namespace AnPlusB

/-! ## Parts of significant tokens -/

theorem plays_of_mapM {parts : List Part} (h : tokens.mapM Part.ofToken? = some parts) :
    Plays tokens parts := by
  induction tokens generalizing parts with
  | nil =>
      obtain rfl : parts = [] := by simpa using h.symm
      exact .nil
  | cons t ts ih =>
      rw [List.mapM_cons] at h
      obtain ⟨part, hpart, h⟩ := Option.bind_eq_some_iff.1 h
      obtain ⟨others, hothers, h⟩ := Option.bind_eq_some_iff.1 h
      obtain rfl : part :: others = parts := by simpa using h
      exact .cons hpart (ih hothers)

theorem derive_congr {other : List Token}
    (h : tokens.filter (fun t => !t.isInsignificant && !t.isEof) =
      other.filter fun t => !t.isInsignificant && !t.isEof) : derive tokens = derive other := by
  rw [derive, derive, parts?, parts?, h]

theorem filter_significant (heof : ∀ t ∈ tokens, t.isEof = false) :
    Token.significant tokens = tokens.filter fun t => !t.isInsignificant := by
  rw [Token.significant, Token.beforeEof, List.takeWhile_eq_self_iff.2]
  intro t ht
  simp [heof t ht]

theorem derive_significant (heof : ∀ t ∈ tokens, t.isEof = false) :
    derive (Token.significant tokens) = derive tokens := by
  apply derive_congr
  rw [filter_significant heof, List.filter_filter]
  apply List.filter_congr
  intro t ht
  simp [heof t ht]

theorem exists_plays_of_derive {pair : Int × Int}
    (h : derive (Token.significant tokens) = some pair) :
    ∃ parts, Plays (Token.significant tokens) parts ∧ HasShape parts := by
  obtain ⟨parts, hparts, hshape⟩ := Option.bind_eq_some_iff.1 h
  have hfilter : (Token.significant tokens).filter (fun t => !t.isInsignificant && !t.isEof) =
      Token.significant tokens := by
    apply List.filter_eq_self.2
    intro t ht
    obtain ⟨hbefore, hblank⟩ := List.mem_filter.1 ht
    have heof := List.mem_takeWhile_imp (p := fun t : Token => !t.isEof) hbefore
    rw [hblank, heof]
    rfl
  rw [parts?, hfilter] at hparts
  refine ⟨parts, plays_of_mapM hparts, List.findSome?_isSome_iff.1 ?_⟩
  rw [hshape]
  rfl

theorem exists_cons_of_plays {part : Part} {parts : List Part} (hsolid : Solid tokens)
    (h : Plays (Token.significant tokens) (part :: parts)) :
    ∃ t ts, tokens = t :: ts ∧ Part.ofToken? t = some part ∧
      Plays (Token.significant ts) parts := by
  cases tokens with
  | nil => cases h
  | cons t ts =>
      have hblank : t.isInsignificant = false := solid_cons_iff.1 hsolid
      have heof : t.isEof = false := by
        apply Bool.eq_false_iff.2
        intro heof
        have hnil : Token.significant (t :: ts) = [] := by
          simp [Token.significant, Token.beforeEof, heof]
        rw [hnil] at h
        cases h
      rw [Token.significant_cons heof hblank] at h
      cases h with
      | cons hpart hparts => exact ⟨t, ts, rfl, hpart, hparts⟩

theorem exists_cons_behind_blank {part : Part} {parts : List Part}
    (h : Plays (Token.significant tokens) (part :: parts)) :
    ∃ t ts, tokens.dropWhile Token.isInsignificant = t :: ts ∧ Part.ofToken? t = some part ∧
      Plays (Token.significant ts) parts := by
  rw [← Token.significant_dropWhile] at h
  exact exists_cons_of_plays solid_dropWhile h

theorem atEnd_of_plays_nil (h : Plays (Token.significant tokens) []) :
    Token.atEnd tokens = true := by
  have hnil : Token.significant (tokens.dropWhile Token.isInsignificant) = [] := by
    rw [Token.significant_dropWhile]
    exact List.forall₂_nil_right_iff.1 h
  unfold Token.atEnd
  cases hdrop : tokens.dropWhile Token.isInsignificant with
  | nil => rfl
  | cons t ts =>
      have hblank : t.isInsignificant = false := by
        have hsolid : Solid (t :: ts) := hdrop ▸ solid_dropWhile
        exact solid_cons_iff.1 hsolid
      by_contra heof
      rw [Bool.not_eq_true] at heof
      rw [hdrop, Token.significant_cons heof hblank] at hnil
      cases hnil

/-! ## Tokens that play a part -/

section Parts

variable {t : Token} {name unit : String} {value : Int} {signed : Bool}

theorem eq_ident_of_ofToken? (h : Part.ofToken? t = some (.ident name)) :
    ∃ span, t = .atom (.ident name) span := by
  unfold Part.ofToken? at h
  split at h
  all_goals simp_all

theorem isDelim_of_ofToken? {part : Part} {c : Char}
    (hc : part = .plus ∧ c = '+' ∨ part = .minus ∧ c = '-') (h : Part.ofToken? t = some part) :
    t.isDelim c = true := by
  unfold Part.ofToken? at h
  rcases hc with ⟨rfl, rfl⟩ | ⟨rfl, rfl⟩
  all_goals
    split at h
    all_goals simp_all [Token.isDelim]

theorem eq_number_of_ofToken? (h : Part.ofToken? t = some (.integer value signed)) :
    ∃ numeric span, t = .atom (.number numeric) span ∧ numeric.integer? = some value ∧
      numeric.signed = signed := by
  unfold Part.ofToken? at h
  split at h
  all_goals simp_all

theorem eq_dimension_of_ofToken? (h : Part.ofToken? t = some (.dimension value unit)) :
    ∃ numeric span, t = .atom (.dimension numeric unit) span ∧ numeric.integer? = some value := by
  unfold Part.ofToken? at h
  split at h
  all_goals simp_all

end Parts

/-- Blank text stands directly behind a leading plus sign. -/
def PlusThenBlank (tokens : List Token) : Prop :=
  ∃ plus blank rest, tokens = plus :: blank :: rest ∧ plus.isDelim '+' = true ∧
    blank.isInsignificant = true

end AnPlusB

namespace Grammar

open AnPlusB

/-! ## Productions that read the parts -/

variable {accept : String → Bool} {name : String} {parts more : List Part}

theorem matches_oneToken {p : Production Token} {t : Token} (h : p.Matches tokens t rest) :
    (oneToken p).Matches tokens [t] rest := by
  simp only [oneToken, matches_bind_iff, matches_pure_iff]
  exact ⟨t, rest, h, rfl, rfl⟩

theorem matches_identToken {t : Token} (h : Part.ofToken? t = some (.ident name))
    (hname : accept name = true) : (identToken accept).Matches (t :: rest) t rest := by
  obtain ⟨span, rfl⟩ := eq_ident_of_ofToken? h
  exact matches_token_iff.2 ⟨rfl, hname⟩

theorem matches_dimensionToken {t : Token} {value : Int} {unit : String}
    (h : Part.ofToken? t = some (.dimension value unit)) (hunit : accept unit = true) :
    (dimensionToken accept).Matches (t :: rest) t rest := by
  obtain ⟨numeric, span, rfl, hvalue⟩ := eq_dimension_of_ofToken? h
  apply matches_token_iff.2
  simp [hvalue, hunit]

theorem matches_integerToken {t : Token} {value : Int} {sign : Bool} {signed : Option Bool}
    (h : Part.ofToken? t = some (.integer value sign)) (hsigned : signed.all (sign == ·) = true) :
    (integerToken signed).Matches (t :: rest) t rest := by
  obtain ⟨numeric, span, rfl, hvalue, rfl⟩ := eq_number_of_ofToken? h
  apply matches_token_iff.2
  simp [hvalue, hsigned]

theorem refuses_dimensionToken {t : Token} {part : Part} (h : Part.ofToken? t = some part)
    (hpart : ∀ value unit, part ≠ .dimension value unit) :
    (dimensionToken accept).Refuses (t :: rest) := by
  unfold dimensionToken
  rw [refuses_token_cons_iff]
  split
  · next numeric unit span =>
      obtain ⟨value, -, hvalue⟩ := Option.map_eq_some_iff.1 h
      exact absurd hvalue.symm (hpart value unit)
  · rfl

theorem matches_plusThenIdent_ident {t : Token} (h : Part.ofToken? t = some (.ident name))
    (hname : accept name = true) : (plusThenIdent accept).Matches (t :: rest) [t] rest := by
  have hplus : (token (Token.isDelim '+')).Refuses (t :: rest) := by
    obtain ⟨span, rfl⟩ := eq_ident_of_ofToken? h
    simp [Token.isDelim]
  simp only [plusThenIdent, matches_bind_iff, matches_optional_iff, matches_pure_iff]
  exact ⟨none, t :: rest, .inr ⟨hplus, rfl, rfl⟩, t, rest, matches_identToken h hname, rfl, rfl⟩

theorem matches_plusThenIdent_plus {plus t : Token} (hplus : Part.ofToken? plus = some .plus)
    (h : Part.ofToken? t = some (.ident name)) (hname : accept name = true) :
    (plusThenIdent accept).Matches (plus :: t :: rest) [plus, t] rest := by
  have hdelim : (token (Token.isDelim '+')).Matches (plus :: t :: rest) plus (t :: rest) :=
    matches_token_iff.2 ⟨rfl, isDelim_of_ofToken? (.inl ⟨rfl, rfl⟩) hplus⟩
  simp only [plusThenIdent, matches_bind_iff, matches_optional_iff, matches_pure_iff]
  exact ⟨some plus, t :: rest, .inl ⟨plus, rfl, hdelim⟩, t, rest, matches_identToken h hname,
    rfl, rfl⟩

theorem refuses_plusThenIdent {t : Token} (h : Part.ofToken? t = some (.ident name))
    (hname : accept name = false) : (plusThenIdent accept).Refuses (t :: rest) := by
  obtain ⟨span, rfl⟩ := eq_ident_of_ofToken? h
  have hplus : (token (Token.isDelim '+')).Refuses (.atom (.ident name) span :: rest) := by
    simp [Token.isDelim]
  have hident : (identToken accept).Refuses (.atom (.ident name) span :: rest) := by
    simp [identToken, Token.ident?, hname]
  rw [plusThenIdent, refuses_bind_iff]
  exact .inr ⟨none, _, matches_optional_iff.2 (.inr ⟨hplus, rfl, rfl⟩),
    refuses_bind_iff.2 (.inl hident)⟩

theorem exists_plus_ident (hsolid : Solid tokens) (hplus : ¬ PlusThenBlank tokens)
    (h : Plays (Token.significant tokens) (.plus :: .ident name :: parts)) :
    ∃ plus t ts, tokens = plus :: t :: ts ∧ Part.ofToken? plus = some .plus ∧
      Part.ofToken? t = some (.ident name) ∧ Plays (Token.significant ts) parts := by
  obtain ⟨plus, ts, rfl, hpart, h⟩ := exists_cons_of_plays hsolid h
  have hsolid' : Solid ts := by
    cases ts with
    | nil => exact solid_nil
    | cons t ts =>
        rw [solid_cons_iff]
        by_contra hblank
        rw [Bool.not_eq_false] at hblank
        exact hplus ⟨plus, t, ts, rfl, isDelim_of_ofToken? (.inl ⟨rfl, rfl⟩) hpart, hblank⟩
  obtain ⟨t, ts, rfl, hname, h⟩ := exists_cons_of_plays hsolid' h
  exact ⟨plus, t, ts, rfl, hpart, hname, h⟩

theorem exists_matches_steps {suffix : String} (hstep : IsStep suffix parts)
    (hsolid : Solid tokens) (hplus : ¬ PlusThenBlank tokens)
    (h : Plays (Token.significant tokens) (parts ++ more)) :
    ∃ values rest, (firstOf (steps suffix)).Matches tokens values rest ∧
      Plays (Token.significant rest) more := by
  unfold IsStep coefficient? at hstep
  simp only [steps, firstOf_cons, matches_orElse_iff]
  split at hstep
  · next value unit =>
      obtain ⟨t, ts, rfl, hpart, hmore⟩ := exists_cons_of_plays hsolid h
      have hunit : equalsIgnoringCase unit ("n" ++ suffix) = true := by
        by_contra hunit
        simp [hunit] at hstep
      exact ⟨[t], ts, .inl (matches_oneToken (matches_dimensionToken hpart hunit)), hmore⟩
  · next name =>
      obtain ⟨plus, t, ts, rfl, hpart, hident, hmore⟩ := exists_plus_ident hsolid hplus h
      have hname : equalsIgnoringCase name ("n" ++ suffix) = true := by
        by_contra hname
        simp [hname] at hstep
      have hrefuses : (oneToken (dimensionToken (equalsIgnoringCase · ("n" ++ suffix)))).Refuses
          (plus :: t :: ts) :=
        refuses_bind_iff.2 (.inl (refuses_dimensionToken hpart (by simp)))
      exact ⟨[plus, t], ts, .inr ⟨hrefuses,
        .inl (matches_plusThenIdent_plus hpart hident hname)⟩, hmore⟩
  · next name =>
      obtain ⟨t, ts, rfl, hpart, hmore⟩ := exists_cons_of_plays hsolid h
      have hrefuses : (oneToken (dimensionToken (equalsIgnoringCase · ("n" ++ suffix)))).Refuses
          (t :: ts) :=
        refuses_bind_iff.2 (.inl (refuses_dimensionToken hpart (by simp)))
      refine ⟨[t], ts, .inr ⟨hrefuses, ?_⟩, hmore⟩
      by_cases hname : equalsIgnoringCase name ("n" ++ suffix) = true
      · exact .inl (matches_plusThenIdent_ident hpart hname)
      · have hdash : equalsIgnoringCase name ("-n" ++ suffix) = true := by
          by_contra hdash
          simp [hname, hdash] at hstep
        refine .inr ⟨refuses_plusThenIdent hpart (by simpa using hname), .inl ?_⟩
        exact matches_oneToken (matches_identToken hpart hdash)
  · cases hstep

/-! ## Shapes that productions read -/

/-- A production that reads the one part of the tokens reads them up to their end. -/
theorem isAnPlusB_of_one {p : Production Token} {part : Part} (hsolid : Solid tokens)
    (hp : oneToken p ∈ anPlusBProductions)
    (hmatches : ∀ t rest, Part.ofToken? t = some part → p.Matches (t :: rest) t rest)
    (h : Plays (Token.significant tokens) [part]) : IsAnPlusB tokens := by
  obtain ⟨t, ts, rfl, hpart, h⟩ := exists_cons_of_plays hsolid h
  exact ⟨oneToken p, hp, [t], ts, matches_oneToken (hmatches t ts hpart), atEnd_of_plays_nil h⟩

theorem sign_of_dashDigits? {a b : Int} (h : dashDigits? name = some (a, b)) :
    a = 1 ∨ a = -1 := by
  unfold dashDigits? at h
  split at h
  · split at h
    · obtain ⟨digits, -, hpair⟩ := Option.map_eq_some_iff.1 h
      exact .inr (Prod.ext_iff.1 hpair).1.symm
    · cases h
  · split at h
    · obtain ⟨digits, -, hpair⟩ := Option.map_eq_some_iff.1 h
      exact .inl (Prod.ext_iff.1 hpair).1.symm
    · cases h
  · cases h

theorem isAnPlusB_of_fused (hsolid : Solid tokens) (hplus : ¬ PlusThenBlank tokens)
    (h : Plays (Token.significant tokens) parts) (hshape : (fused? parts).isSome = true) :
    IsAnPlusB tokens := by
  unfold fused? at hshape
  split at hshape
  · next value unit =>
      split at hshape
      · next b hdigits =>
          apply isAnPlusB_of_one hsolid (p := dimensionToken isNDashDigits) _ _ h
          · simp [anPlusBProductions]
          · intro t rest hpart
            exact matches_dimensionToken hpart (by simp [isNDashDigits, hdigits])
      · cases hshape
  · next name =>
      split at hshape
      · next b hdigits =>
          obtain ⟨plus, t, ts, rfl, hpart, hident, hmore⟩ := exists_plus_ident hsolid hplus h
          refine ⟨plusThenIdent isNDashDigits, by simp [anPlusBProductions], [plus, t], ts, ?_,
            atEnd_of_plays_nil hmore⟩
          exact matches_plusThenIdent_plus hpart hident (by simp [isNDashDigits, hdigits])
      · cases hshape
  · next name =>
      obtain ⟨t, ts, rfl, hpart, hmore⟩ := exists_cons_of_plays hsolid h
      rw [Option.isSome_map] at hshape
      obtain ⟨⟨a, b⟩, hdigits⟩ := Option.isSome_iff_exists.1 hshape
      rcases sign_of_dashDigits? hdigits with rfl | rfl
      · refine ⟨plusThenIdent isNDashDigits, by simp [anPlusBProductions], [t], ts, ?_,
          atEnd_of_plays_nil hmore⟩
        exact matches_plusThenIdent_ident hpart (by simp [isNDashDigits, hdigits])
      · refine ⟨oneToken (identToken isDashNDashDigits), by simp [anPlusBProductions], [t], ts, ?_,
          atEnd_of_plays_nil hmore⟩
        exact matches_oneToken (matches_identToken hpart (by simp [isDashNDashDigits, hdigits]))
  · cases hshape

theorem isAnPlusB_of_offset {suffix : String} {value : Int} {signed : Bool}
    (hsolid : Solid tokens) (hplus : ¬ PlusThenBlank tokens) (hstep : IsStep suffix parts)
    (h : Plays (Token.significant tokens) (parts ++ [.integer value signed]))
    (hp : (do
      let values ← firstOf (steps suffix)
      skip
      let offset ← integerToken (some signed)
      return values ++ [offset]) ∈ anPlusBProductions) : IsAnPlusB tokens := by
  obtain ⟨values, rest, hvalues, h⟩ := exists_matches_steps hstep hsolid hplus h
  obtain ⟨t, ts, hts, hpart, h⟩ := exists_cons_behind_blank h
  refine ⟨_, hp, values ++ [t], ts, ?_, atEnd_of_plays_nil h⟩
  simp only [matches_bind_iff, matches_pure_iff, matches_skip_iff]
  exact ⟨values, rest, hvalues, (), _, rfl, t, ts, hts ▸ matches_integerToken hpart (by simp),
    rfl, rfl⟩

theorem isAnPlusB_of_separate {sign : Part} {c : Char} {value : Int}
    (hsign : sign = .plus ∧ c = '+' ∨ sign = .minus ∧ c = '-') (hsolid : Solid tokens)
    (hplus : ¬ PlusThenBlank tokens) (hstep : IsStep "" parts)
    (h : Plays (Token.significant tokens) (parts ++ [sign, .integer value false])) :
    IsAnPlusB tokens := by
  have hp : nSignSignless c ∈ anPlusBProductions := by
    rcases hsign with ⟨-, rfl⟩ | ⟨-, rfl⟩ <;> simp [anPlusBProductions]
  obtain ⟨values, rest, hvalues, h⟩ := exists_matches_steps hstep hsolid hplus h
  obtain ⟨delim, ts, hts, hdelim, h⟩ := exists_cons_behind_blank h
  obtain ⟨t, ts', hts', hpart, h⟩ := exists_cons_behind_blank h
  refine ⟨_, hp, values ++ [delim, t], ts', ?_, atEnd_of_plays_nil h⟩
  simp only [nSignSignless, nStep_eq, matches_bind_iff, matches_pure_iff, matches_skip_iff,
    matches_token_iff]
  exact ⟨values, rest, hvalues, (), _, rfl, delim, ts, ⟨hts, isDelim_of_ofToken? hsign hdelim⟩,
    (), _, rfl, t, ts', hts' ▸ matches_integerToken hpart (by simp), rfl, rfl⟩

theorem isAnPlusB_of_word {text : String} (hp : oneToken (word text) ∈ anPlusBProductions)
    (hsolid : Solid tokens) (h : Plays (Token.significant tokens) [.ident name])
    (hname : equalsIgnoringCase name text = true) : IsAnPlusB tokens :=
  isAnPlusB_of_one hsolid hp (fun _ _ hpart => matches_identToken hpart hname) h

theorem isAnPlusB_of_hasShape (hsolid : Solid tokens) (hplus : ¬ PlusThenBlank tokens)
    (h : Plays (Token.significant tokens) parts) (hshape : HasShape parts) :
    IsAnPlusB tokens := by
  obtain ⟨shape, hmem, hsome⟩ := hshape
  simp only [shapes, List.mem_cons, List.not_mem_nil, or_false] at hmem
  rcases hmem with rfl | rfl | rfl | rfl | rfl | rfl | rfl | rfl
  case inl =>
    unfold odd? at hsome
    split at hsome
    · have hp : oneToken (word "odd") ∈ anPlusBProductions := by simp [anPlusBProductions]
      apply isAnPlusB_of_word hp hsolid h
      by_contra hname
      simp [hname] at hsome
    · cases hsome
  case inr.inl =>
    unfold even? at hsome
    split at hsome
    · have hp : oneToken (word "even") ∈ anPlusBProductions := by simp [anPlusBProductions]
      apply isAnPlusB_of_word hp hsolid h
      by_contra hname
      simp [hname] at hsome
    · cases hsome
  case inr.inr.inl =>
    unfold offsetAlone? at hsome
    split at hsome
    · apply isAnPlusB_of_one (p := integerToken none) hsolid (by simp [anPlusBProductions]) _ h
      intro t rest hpart
      exact matches_integerToken hpart rfl
    · cases hsome
  case inr.inr.inr.inl =>
    have hstep : IsStep "" parts := by rwa [stepAlone?, Option.isSome_map] at hsome
    rw [← List.append_nil parts] at h
    obtain ⟨values, rest, hvalues, h⟩ := exists_matches_steps hstep hsolid hplus h
    obtain ⟨p, hp, hvalues⟩ := hvalues.exists_mem_firstOf
    have hsteps : steps "" = (anPlusBProductions.drop 3).take 3 := rfl
    rw [hsteps] at hp
    exact ⟨p, List.mem_of_mem_drop (List.mem_of_mem_take hp), values, rest, hvalues,
      atEnd_of_plays_nil h⟩
  case inr.inr.inr.inr.inl => exact isAnPlusB_of_fused hsolid hplus h hsome
  case inr.inr.inr.inr.inr.inl =>
    unfold signedOffset? at hsome
    split at hsome
    · next value hlast =>
        rw [Option.isSome_map] at hsome
        rw [← List.dropLast_append_getLast? _ hlast] at h
        have hp : nSigned ∈ anPlusBProductions := by simp [anPlusBProductions]
        exact isAnPlusB_of_offset hsolid hplus hsome h hp
    · cases hsome
  case inr.inr.inr.inr.inr.inr.inl =>
    unfold dashedOffset? at hsome
    split at hsome
    · next value hlast =>
        rw [Option.isSome_map] at hsome
        rw [← List.dropLast_append_getLast? _ hlast] at h
        have hp : nDashSignless ∈ anPlusBProductions := by simp [anPlusBProductions]
        exact isAnPlusB_of_offset hsolid hplus hsome h hp
    · cases hsome
  case inr.inr.inr.inr.inr.inr.inr =>
    unfold separateOffset? at hsome
    split at hsome
    · next value hsign hlast =>
        rw [Option.isSome_map] at hsome
        rw [← List.dropLast_append_getLast? _ hlast, ← List.dropLast_append_getLast? _ hsign,
          List.append_assoc] at h
        exact isAnPlusB_of_separate (.inl ⟨rfl, rfl⟩) hsolid hplus hsome h
    · next value hsign hlast =>
        rw [Option.isSome_map] at hsome
        rw [← List.dropLast_append_getLast? _ hlast, ← List.dropLast_append_getLast? _ hsign,
          List.append_assoc] at h
        exact isAnPlusB_of_separate (.inr ⟨rfl, rfl⟩) hsolid hplus hsome h
    · cases hsome

/-! ## Productions and shapes -/

theorem refuses_plusThenIdent_blank {plus blank : Token} (hplus : plus.isDelim '+' = true)
    (hblank : blank.isInsignificant = true) :
    (plusThenIdent accept).Refuses (plus :: blank :: tokens) := by
  have hname : blank.ident?.any accept = false := by
    by_contra hname
    simp [(proper_ident accept blank (by simpa using hname)).1] at hblank
  have hdelim : (token (Token.isDelim '+')).Matches (plus :: blank :: tokens) plus
      (blank :: tokens) :=
    matches_token_iff.2 ⟨rfl, hplus⟩
  rw [plusThenIdent, refuses_bind_iff]
  exact .inr ⟨some plus, _, matches_optional_iff.2 (.inl ⟨plus, rfl, hdelim⟩),
    refuses_bind_iff.2 (.inl (refuses_token_cons_iff.2 hname))⟩

theorem refuses_of_plusThenBlank (h : PlusThenBlank tokens) :
    ∀ p ∈ anPlusBProductions, p.Refuses tokens := by
  obtain ⟨plus, blank, behind, rfl, hplus, hblank⟩ := h
  have hname : ∀ accept, (plusThenIdent accept).Refuses (plus :: blank :: behind) :=
    fun _ => refuses_plusThenIdent_blank hplus hblank
  have hone : ∀ test : Token → Bool, test plus = false →
      (oneToken (token test)).Refuses (plus :: blank :: behind) :=
    fun _ htest => refuses_bind_iff.2 (.inl (refuses_token_cons_iff.2 htest))
  obtain ⟨span, rfl⟩ := Token.isDelim_iff.1 hplus
  have hstep : ∀ suffix, (firstOf (steps suffix)).Refuses
      (.atom (.delim '+') span :: blank :: behind) := by
    intro suffix
    rw [refuses_firstOf_iff]
    simp only [steps, List.forall_mem_cons, List.not_mem_nil, false_implies, implies_true, and_true]
    exact ⟨hone _ rfl, hname _, hone _ rfl⟩
  simp only [anPlusBProductions, List.forall_mem_cons, List.not_mem_nil, false_implies,
    implies_true, and_true]
  exact ⟨hone _ rfl, hone _ rfl, hone _ rfl, hone _ rfl, hname _, hone _ rfl, hone _ rfl, hname _,
    hone _ rfl, refuses_bind_iff.2 (.inl (hstep "")), refuses_bind_iff.2 (.inl (hstep "-")),
    refuses_bind_iff.2 (.inl (hstep "")), refuses_bind_iff.2 (.inl (hstep ""))⟩

theorem not_isAnPlusB_of_plusThenBlank (h : PlusThenBlank tokens) : ¬ IsAnPlusB tokens := by
  rintro ⟨p, hp, values, rest, hmatches, -⟩
  exact hmatches.not_refuses (refuses_of_plusThenBlank h p hp)

/-- Tokens that do not begin with blank text are An+B where what they have apart from it has one
of the shapes, unless a leading plus sign stands alone. -/
theorem isAnPlusB_iff (hsolid : Solid tokens) :
    IsAnPlusB tokens ↔
      (derive (Token.significant tokens)).isSome = true ∧ ¬ PlusThenBlank tokens := by
  constructor
  · intro h
    refine ⟨?_, fun hplus => not_isAnPlusB_of_plusThenBlank hplus h⟩
    obtain ⟨value, rest, hvalue⟩ := exists_matches_anPlusB_iff.2 h
    obtain ⟨_, _, _, _, _, _, hderived⟩ := matches_anPlusB hvalue
    rw [← values_of_matches_anPlusB hvalue, (derive_of_ofTokens? hderived).2]
    rfl
  · rintro ⟨hsome, hplus⟩
    obtain ⟨pair, hpair⟩ := Option.isSome_iff_exists.1 hsome
    obtain ⟨parts, hplays, hshape⟩ := exists_plays_of_derive hpair
    exact isAnPlusB_of_hasShape hsolid hplus hplays hshape

theorem exists_matches_anPlusB_iff_derive {value : AnPlusB} (hsolid : Solid tokens) :
    (∃ rest, anPlusB.Matches tokens value rest) ↔
      derive (Token.significant tokens) = some (value.a, value.b) ∧
        value.values = Token.significant tokens ∧ ¬ PlusThenBlank tokens := by
  constructor
  · rintro ⟨rest, h⟩
    obtain ⟨_, _, _, _, _, _, hderived⟩ := matches_anPlusB h
    have hvalues := values_of_matches_anPlusB h
    have hplus := ((isAnPlusB_iff hsolid).1 (exists_matches_anPlusB_iff.1 ⟨value, rest, h⟩)).2
    exact ⟨hvalues ▸ (derive_of_ofTokens? hderived).2, hvalues, hplus⟩
  · rintro ⟨hpair, hvalues, hplus⟩
    have hsome : (derive (Token.significant tokens)).isSome = true := by rw [hpair]; rfl
    obtain ⟨other, rest, h⟩ :=
      exists_matches_anPlusB_iff.2 ((isAnPlusB_iff hsolid).2 ⟨hsome, hplus⟩)
    obtain ⟨_, _, _, _, _, _, hderived⟩ := matches_anPlusB h
    have hother := values_of_matches_anPlusB h
    have hpair' := (derive_of_ofTokens? hderived).2
    rw [hother, hpair] at hpair'
    -- A value is its tokens, its step and its offset, and all three are settled.
    obtain rfl : other = value := by
      cases other
      cases value
      simp_all
    exact ⟨rest, h⟩

theorem matches_readNested_anPlusB_iff {inner : Grammar} {name : String} {value : AnPlusB} :
    (readNested inner name tokens).Matches rest (.anPlusB value) rest ↔
      ∃ leftover, anPlusB.Matches tokens value leftover := by
  rcases readNested_cases inner name tokens with ⟨arguments, hsays, h⟩ | ⟨⟨hno, -⟩, hdeep⟩
  · constructor
    · intro hmatches
      obtain ⟨rfl, -⟩ := (h rest).unique hmatches
      cases hsays with
      | anPlusB hvalue => exact ⟨_, hvalue⟩
    · rintro ⟨leftover, hvalue⟩
      rw [← hsays.unique (.anPlusB hvalue)]
      exact h rest
  · constructor
    · intro hmatches
      exact absurd (hdeep rest) hmatches.not_overflows
    · rintro ⟨leftover, hvalue⟩
      exact absurd hvalue (hno value leftover)

/-- Nonempty arguments are read as An+B exactly where their shape gives a step and an offset and
no leading plus sign stands alone, and the value read has that step and that offset and all
significant tokens. Whatever a production of An+B reads up to the end has a shape. -/
theorem anPlusB_agrees_with_derivation {inner : Grammar} {name : String}
    (hsolid : Solid tokens) (heof : ∀ t ∈ tokens, t.isEof = false) :
    (∀ value, (readNested inner name tokens).Matches rest (.anPlusB value) rest ↔
      (derive tokens = some (value.a, value.b) ∧
        value.values = tokens.filter fun t => !t.isInsignificant) ∧ ¬ PlusThenBlank tokens) ∧
    ∀ all values leftover, (firstOf (anPlusBProductions.map toEnd)).Matches all values leftover →
      ∃ pair, derive values = some pair := by
  constructor
  · intro value
    rw [matches_readNested_anPlusB_iff, exists_matches_anPlusB_iff_derive hsolid,
      derive_significant heof, filter_significant heof, and_assoc]
  · intro all values leftover h
    obtain ⟨_, hq, hmatches⟩ := h.exists_mem_firstOf
    obtain ⟨p, hp, rfl⟩ := List.mem_map.1 hq
    simp only [toEnd, matches_bind_iff, matches_pure_iff] at hmatches
    obtain ⟨_, _, hmatches, _, _, -, rfl, -⟩ := hmatches
    obtain ⟨parts, hplays, hshape⟩ := readsParts_anPlusBProductions p hp _ _ _ hmatches
    obtain ⟨value, hvalue⟩ := hplays.exists_ofTokens? hshape
    obtain ⟨pair, hpair, -⟩ := Option.map_eq_some_iff.1 hvalue
    exact ⟨pair, hpair⟩

theorem anPlusB_agrees_with_derivation_dashed :
    (readNested (ofLevels .standard 0) "f"
        [.atom (.delim '+') ⟨2, 3⟩, .atom (.ident "N-") ⟨3, 5⟩, .atom .whitespace ⟨5, 6⟩,
          .atom (.number (.ofInt 3 false)) ⟨6, 7⟩, .atom (.comment "") ⟨7, 11⟩]).Matches []
      (.anPlusB ⟨[.atom (.delim '+') ⟨2, 3⟩, .atom (.ident "N-") ⟨3, 5⟩,
        .atom (.number (.ofInt 3 false)) ⟨6, 7⟩], 1, -3⟩) [] := by
  have hsolid : Solid [.atom (.delim '+') ⟨2, 3⟩, .atom (.ident "N-") ⟨3, 5⟩,
      .atom .whitespace ⟨5, 6⟩, .atom (.number (.ofInt 3 false)) ⟨6, 7⟩,
      .atom (.comment "") ⟨7, 11⟩] := rfl
  refine ((anPlusB_agrees_with_derivation hsolid (by decide)).1 _).2 ⟨⟨rfl, rfl⟩, ?_⟩
  rintro ⟨_, _, _, heq, -, hblank⟩
  cases heq
  cases hblank

end Grammar

end CssSelectors
