import CssSelectors.Grammar.AnPlusB
import CssSelectors.Proofs.Spelling

/-!
# Tokens that are An+B

Whatever a production of An+B reads has one of the shapes that stand for a step and an
offset. So tokens are An+B as soon as some production reads them up to their end.
-/

namespace CssSelectors

open Production

namespace AnPlusB

variable {tokens left right : List Token} {parts : List Part}

/-- The tokens play the parts, one each. -/
def Plays (tokens : List Token) (parts : List Part) : Prop :=
  List.Forall₂ (fun t part => Part.ofToken? t = some part) tokens parts

theorem Plays.append {leftParts rightParts : List Part} (h : Plays left leftParts)
    (h' : Plays right rightParts) : Plays (left ++ right) (leftParts ++ rightParts) :=
  List.rel_append h h'

theorem significant_of_ofToken? {t : Token} {part : Part} (h : Part.ofToken? t = some part) :
    (!t.isInsignificant && !t.isEof) = true := by
  match t with
  | .function _ _ _ => cases h
  | .atom a _ => cases a <;> first | rfl | cases h

theorem Plays.parts? (h : Plays tokens parts) : parts? tokens = some parts := by
  unfold AnPlusB.parts?
  induction h with
  | nil => rfl
  | @cons t part ts parts ht _ ih =>
      have hfilter : (t :: ts).filter (fun t => !t.isInsignificant && !t.isEof) =
          t :: ts.filter (fun t => !t.isInsignificant && !t.isEof) := by
        simp only [List.filter_cons, significant_of_ofToken? ht, if_true]
      rw [hfilter, List.mapM_cons, ht, ih]
      rfl

/-! ## Shapes -/

def HasShape (parts : List Part) : Prop :=
  ∃ shape ∈ shapes, (shape parts).isSome = true

theorem Plays.exists_ofTokens? (h : Plays tokens parts) (hshape : HasShape parts) :
    ∃ value, ofTokens? tokens = some value := by
  have hsome : (shapes.findSome? (· parts)).isSome = true := List.findSome?_isSome_iff.2 hshape
  rw [← Option.isSome_iff_exists, ofTokens?, Option.isSome_map, derive, h.parts?]
  exact hsome

theorem derive_of_ofTokens? {value : AnPlusB} (h : ofTokens? tokens = some value) :
    value.values = tokens ∧ derive value.values = some (value.a, value.b) := by
  obtain ⟨pair, hpair, rfl⟩ := Option.map_eq_some_iff.1 h
  exact ⟨rfl, hpair⟩

def IsStep (suffix : String) (parts : List Part) : Prop :=
  (coefficient? suffix parts).isSome = true

variable {value : Int}

theorem IsStep.hasShape (h : IsStep "" parts) : HasShape parts := by
  refine ⟨stepAlone?, by simp [shapes], ?_⟩
  rwa [stepAlone?, Option.isSome_map]

theorem IsStep.hasShape_signed (h : IsStep "" parts) :
    HasShape (parts ++ [.integer value true]) := by
  refine ⟨signedOffset?, by simp [shapes], ?_⟩
  simp only [signedOffset?, List.getLast?_concat, List.dropLast_concat, Option.isSome_map]
  exact h

theorem IsStep.hasShape_dashed (h : IsStep "-" parts) :
    HasShape (parts ++ [.integer value false]) := by
  refine ⟨dashedOffset?, by simp [shapes], ?_⟩
  simp only [dashedOffset?, List.getLast?_concat, List.dropLast_concat, Option.isSome_map]
  exact h

theorem IsStep.hasShape_separate (h : IsStep "" parts) {sign : Part}
    (hsign : sign = .plus ∨ sign = .minus) :
    HasShape (parts ++ [sign, .integer value false]) := by
  refine ⟨separateOffset?, by simp [shapes], ?_⟩
  rw [List.append_cons]
  rcases hsign with rfl | rfl
  all_goals
    simp only [separateOffset?, List.getLast?_concat, List.dropLast_concat, Option.isSome_map]
    exact h

end AnPlusB

namespace Grammar

open AnPlusB

/-! ## The parts that productions read -/

/-- All that the production reads plays good parts. -/
def ReadsParts (p : Production (List Token)) (Good : List Part → Prop) : Prop :=
  ∀ tokens values rest, p.Matches tokens values rest → ∃ parts, Plays values parts ∧ Good parts

variable {Good : List Part → Prop}

theorem readsParts_firstOf {ps : List (Production (List Token))} (h : ∀ p ∈ ps, ReadsParts p Good) :
    ReadsParts (firstOf ps) Good := by
  intro tokens values rest hmatches
  obtain ⟨p, hp, hmatches⟩ := hmatches.exists_mem_firstOf
  exact h p hp tokens values rest hmatches

section Tokens

variable {accept : String → Bool} {t : Token} {tokens rest : List Token}

theorem ofToken?_of_identToken (h : (identToken accept).Matches tokens t rest) :
    ∃ name, Part.ofToken? t = some (.ident name) ∧ accept name = true := by
  obtain ⟨-, h⟩ := matches_token_iff.1 h
  match t with
  | .function _ _ _ => cases h
  | .atom a _ =>
      cases a with
      | ident name => exact ⟨name, rfl, h⟩
      | _ => cases h

theorem ofToken?_of_dimensionToken (h : (dimensionToken accept).Matches tokens t rest) :
    ∃ value unit, Part.ofToken? t = some (.dimension value unit) ∧ accept unit = true := by
  obtain ⟨-, h⟩ := matches_token_iff.1 h
  match t with
  | .function _ _ _ => cases h
  | .atom a _ =>
      cases a with
      | dimension numeric unit =>
          obtain ⟨hvalue, hunit⟩ := Bool.and_eq_true_iff.1 h
          obtain ⟨value, hvalue⟩ := Option.isSome_iff_exists.1 hvalue
          exact ⟨value, unit, by simp [Part.ofToken?, hvalue], hunit⟩
      | _ => cases h

theorem ofToken?_of_integerToken {signed : Option Bool}
    (h : (integerToken signed).Matches tokens t rest) :
    ∃ value sign, Part.ofToken? t = some (.integer value sign) ∧
      signed.all (sign == ·) = true := by
  obtain ⟨-, h⟩ := matches_token_iff.1 h
  match t with
  | .function _ _ _ => cases h
  | .atom a _ =>
      cases a with
      | number numeric =>
          obtain ⟨hvalue, hsigned⟩ := Bool.and_eq_true_iff.1 h
          obtain ⟨value, hvalue⟩ := Option.isSome_iff_exists.1 hvalue
          exact ⟨value, numeric.signed, by simp [Part.ofToken?, hvalue], hsigned⟩
      | _ => cases h

theorem readsParts_oneToken {p : Production Token}
    (h : ∀ tokens t rest, p.Matches tokens t rest →
      ∃ part, Part.ofToken? t = some part ∧ Good [part]) :
    ReadsParts (oneToken p) Good := by
  intro tokens values rest hmatches
  simp only [oneToken, matches_bind_iff, matches_pure_iff] at hmatches
  obtain ⟨t, _, ht, rfl, rfl⟩ := hmatches
  obtain ⟨part, hpart, hgood⟩ := h _ t _ ht
  exact ⟨[part], .cons hpart .nil, hgood⟩

theorem readsParts_ident (h : ∀ name, accept name = true → Good [.ident name]) :
    ReadsParts (oneToken (identToken accept)) Good := by
  apply readsParts_oneToken
  intro tokens t rest hmatches
  obtain ⟨name, hpart, hname⟩ := ofToken?_of_identToken hmatches
  exact ⟨_, hpart, h name hname⟩

theorem readsParts_dimension (h : ∀ value unit, accept unit = true → Good [.dimension value unit]) :
    ReadsParts (oneToken (dimensionToken accept)) Good := by
  apply readsParts_oneToken
  intro tokens t rest hmatches
  obtain ⟨value, unit, hpart, hunit⟩ := ofToken?_of_dimensionToken hmatches
  exact ⟨_, hpart, h value unit hunit⟩

theorem readsParts_plusThenIdent
    (h : ∀ name, accept name = true → Good [.ident name] ∧ Good [.plus, .ident name]) :
    ReadsParts (plusThenIdent accept) Good := by
  intro tokens values rest hmatches
  simp only [plusThenIdent, matches_bind_iff, matches_optional_iff, matches_token_iff,
    matches_pure_iff] at hmatches
  obtain ⟨plus, _, hplus, t, _, ht, rfl, rfl⟩ := hmatches
  obtain ⟨name, hpart, hname⟩ := ofToken?_of_identToken ht
  have hplays : Plays [t] [.ident name] := .cons hpart .nil
  rcases hplus with ⟨sign, rfl, rfl, hsign⟩ | ⟨-, rfl, -⟩
  · obtain ⟨span, rfl⟩ := Token.isDelim_iff.1 hsign
    exact ⟨_, .cons rfl hplays, (h name hname).2⟩
  · exact ⟨_, hplays, (h name hname).1⟩

theorem readsParts_offset {step : Production (List Token)} {GoodStep : List Part → Prop}
    (hstep : ReadsParts step GoodStep) {signed : Bool}
    (h : ∀ parts value, GoodStep parts → Good (parts ++ [.integer value signed])) :
    ReadsParts (do
      let values ← step
      skip
      let offset ← integerToken (some signed)
      return values ++ [offset]) Good := by
  intro tokens values rest hmatches
  simp only [matches_bind_iff, matches_pure_iff] at hmatches
  obtain ⟨values, _, hvalues, _, _, -, offset, _, hoffset, rfl, rfl⟩ := hmatches
  obtain ⟨parts, hplays, hgood⟩ := hstep _ _ _ hvalues
  obtain ⟨value, sign, hpart, hsign⟩ := ofToken?_of_integerToken hoffset
  obtain rfl : sign = signed := by simpa using hsign
  exact ⟨_, hplays.append (.cons hpart .nil), h parts value hgood⟩

end Tokens

/-! ## Productions -/

/-- The spellings of a step that ends in the given suffix. -/
def steps (suffix : String) : List (Production (List Token)) :=
  [ oneToken (dimensionToken (equalsIgnoringCase · ("n" ++ suffix))),
    plusThenIdent (equalsIgnoringCase · ("n" ++ suffix)),
    oneToken (identToken (equalsIgnoringCase · ("-n" ++ suffix))) ]

theorem nStep_eq : nStep = firstOf (steps "") := rfl

theorem readsParts_steps (suffix : String) : ∀ p ∈ steps suffix, ReadsParts p (IsStep suffix) := by
  simp only [steps, List.forall_mem_cons, List.not_mem_nil, false_implies, implies_true, and_true]
  refine ⟨readsParts_dimension fun value unit h => ?_, readsParts_plusThenIdent fun name h => ?_,
    readsParts_ident fun name h => ?_⟩
  · simp [IsStep, coefficient?, h]
  · simp [IsStep, coefficient?, h]
  · simp only [IsStep, coefficient?, h, if_true]
    split <;> rfl

theorem readsParts_nSignSignless {sign : Char} {part : Part}
    (hpart : ∀ span, Part.ofToken? (.atom (.delim sign) span) = some part)
    (hsign : part = .plus ∨ part = .minus) : ReadsParts (nSignSignless sign) HasShape := by
  intro tokens values rest hmatches
  simp only [nSignSignless, nStep_eq, matches_bind_iff, matches_token_iff,
    matches_pure_iff] at hmatches
  obtain ⟨values, _, hvalues, _, _, -, t, _, ⟨-, ht⟩, _, _, -, offset, _, hoffset, rfl, rfl⟩ :=
    hmatches
  obtain ⟨span, rfl⟩ := Token.isDelim_iff.1 ht
  obtain ⟨parts, hplays, hstep⟩ := readsParts_firstOf (readsParts_steps "") _ _ _ hvalues
  obtain ⟨value, sign', hoffset, hsigned⟩ := ofToken?_of_integerToken hoffset
  obtain rfl : sign' = false := by simpa using hsigned
  exact ⟨_, hplays.append (.cons (hpart span) (.cons hoffset .nil)), hstep.hasShape_separate hsign⟩

theorem exists_dashDigits {name : String} {a : Int} (h : (dashDigits? name).any (·.1 = a) = true) :
    ∃ b, dashDigits? name = some (a, b) := by
  cases hdigits : dashDigits? name with
  | none => simp [hdigits] at h
  | some pair =>
      obtain ⟨a', b⟩ := pair
      obtain rfl : a' = a := by simpa [hdigits] using h
      exact ⟨b, rfl⟩

theorem readsParts_anPlusBProductions : ∀ p ∈ anPlusBProductions, ReadsParts p HasShape := by
  have hproductions : anPlusBProductions =
      [oneToken (word "odd"), oneToken (word "even"), oneToken (integerToken none)] ++ steps "" ++
      [oneToken (dimensionToken isNDashDigits), plusThenIdent isNDashDigits,
        oneToken (identToken isDashNDashDigits), nSigned, nDashSignless, nSignSignless '+',
        nSignSignless '-'] := rfl
  simp only [hproductions, List.forall_mem_append, List.forall_mem_cons, List.not_mem_nil,
    false_implies, implies_true, and_true]
  refine ⟨⟨⟨?odd, ?even, ?offset⟩, ?step⟩, ?dimension, ?ident, ?dashIdent, ?signed, ?dashed,
    ?plus, ?minus⟩
  case odd =>
    exact readsParts_ident fun name h => ⟨odd?, by simp [shapes], by simp [odd?, h]⟩
  case even =>
    exact readsParts_ident fun name h => ⟨even?, by simp [shapes], by simp [even?, h]⟩
  case offset =>
    apply readsParts_oneToken
    intro tokens t rest h
    obtain ⟨value, sign, hpart, -⟩ := ofToken?_of_integerToken h
    exact ⟨_, hpart, offsetAlone?, by simp [shapes], rfl⟩
  case step =>
    intro p hp tokens values rest hmatches
    obtain ⟨parts, hplays, hstep⟩ := readsParts_steps "" p hp tokens values rest hmatches
    exact ⟨parts, hplays, hstep.hasShape⟩
  case dimension =>
    apply readsParts_dimension
    intro value unit h
    obtain ⟨b, hdigits⟩ := exists_dashDigits h
    exact ⟨fused?, by simp [shapes], by simp [fused?, hdigits]⟩
  case ident =>
    apply readsParts_plusThenIdent
    intro name h
    obtain ⟨b, hdigits⟩ := exists_dashDigits h
    exact ⟨⟨fused?, by simp [shapes], by simp [fused?, hdigits]⟩,
      fused?, by simp [shapes], by simp [fused?, hdigits]⟩
  case dashIdent =>
    apply readsParts_ident
    intro name h
    obtain ⟨b, hdigits⟩ := exists_dashDigits h
    exact ⟨fused?, by simp [shapes], by simp [fused?, hdigits]⟩
  case signed =>
    exact readsParts_offset (readsParts_firstOf (readsParts_steps "")) fun _ _ h =>
      h.hasShape_signed
  case dashed =>
    exact readsParts_offset (readsParts_firstOf (readsParts_steps "-")) fun _ _ h =>
      h.hasShape_dashed
  case plus => exact readsParts_nSignSignless (fun _ => rfl) (.inl rfl)
  case minus => exact readsParts_nSignSignless (fun _ => rfl) (.inr rfl)

/-! ## An+B up to the end -/

variable {tokens rest : List Token}

/-- Some production of An+B reads the tokens up to their end. -/
def IsAnPlusB (tokens : List Token) : Prop :=
  ∃ p ∈ anPlusBProductions, ∃ values rest, p.Matches tokens values rest ∧ Token.atEnd rest = true

/-- The end of the input without blank text before it. -/
def endHere : Production Unit := fun tokens =>
  ⟨if Token.atEnd tokens then .matched () tokens else .noMatch tokens, none, []⟩

theorem endOfInput_eq : endOfInput = (do skip; endHere) := rfl

theorem matches_endHere_iff {u : Unit} :
    endHere.Matches tokens u rest ↔ Token.atEnd tokens = true ∧ tokens = rest := by
  unfold Matches endHere
  by_cases h : Token.atEnd tokens = true <;> simp [h]

theorem not_overflows_endHere : ¬ endHere.Overflows tokens := by
  unfold Overflows endHere
  by_cases h : Token.atEnd tokens = true <;> simp [h]

theorem atEnd_dropWhile (tokens : List Token) :
    Token.atEnd (tokens.dropWhile Token.isInsignificant) = Token.atEnd tokens := by
  rw [Token.atEnd, solid_dropWhile]
  rfl

theorem matches_endOfInput_iff {u : Unit} :
    endOfInput.Matches tokens u rest ↔
      Token.atEnd tokens = true ∧ tokens.dropWhile Token.isInsignificant = rest := by
  simp [endOfInput_eq, matches_endHere_iff, atEnd_dropWhile]

theorem matches_anPlusB {value : AnPlusB} (h : anPlusB.Matches tokens value rest) :
    ∃ p ∈ anPlusBProductions, ∃ values middle, p.Matches tokens values middle ∧
      Token.atEnd middle = true ∧ AnPlusB.ofTokens? values = some value := by
  simp only [anPlusB, matches_bind_iff] at h
  obtain ⟨values, middle, hvalues, hvalue⟩ := h
  obtain ⟨_, hq, hmatches⟩ := hvalues.exists_mem_firstOf
  obtain ⟨p, hp, rfl⟩ := List.mem_map.1 hq
  simp only [toEnd, matches_bind_iff, matches_pure_iff, matches_endOfInput_iff] at hmatches
  obtain ⟨_, _, hp', _, _, ⟨hend, -⟩, rfl, rfl⟩ := hmatches
  split at hvalue
  · next value' hvalue' =>
      obtain ⟨rfl, -⟩ := matches_pure_iff.1 hvalue
      exact ⟨p, hp, _, _, hp', hend, hvalue'⟩
  · exact absurd hvalue not_matches_fail

theorem not_overflows_toEnd {p : Production (List Token)} (hp : p ∈ anPlusBProductions) :
    ¬ (toEnd p).Overflows tokens := by
  have hproductions : ∀ p ∈ anPlusBProductions, ¬ p.Overflows tokens := by
    simp [anPlusBProductions, oneToken, word, integerToken, dimensionToken, identToken,
      plusThenIdent, nSigned, nStep, nDashSignless, nDashStep, nSignSignless]
  simp [toEnd, endOfInput_eq, not_overflows_endHere, hproductions p hp]

theorem exists_matches_firstOf_toEnd (h : IsAnPlusB tokens) :
    ∃ values rest, (firstOf (anPlusBProductions.map toEnd)).Matches tokens values rest := by
  obtain ⟨p, hp, values, middle, hmatches, hend⟩ := h
  rcases matches_or_refuses_or_overflows (firstOf (anPlusBProductions.map toEnd)) tokens with
    hfirst | hrefuses | hover
  · exact hfirst
  · have htoEnd : (toEnd p).Matches tokens values (middle.dropWhile Token.isInsignificant) := by
      simp only [toEnd, matches_bind_iff, matches_pure_iff, matches_endOfInput_iff]
      exact ⟨values, middle, hmatches, (), _, ⟨hend, rfl⟩, rfl, rfl⟩
    exact absurd (refuses_firstOf_iff.1 hrefuses _ (List.mem_map_of_mem hp)) htoEnd.not_refuses
  · obtain ⟨_, hmem, hover⟩ := hover.exists_mem_firstOf
    obtain ⟨q, hq, rfl⟩ := List.mem_map.1 hmem
    exact absurd hover (not_overflows_toEnd hq)

/-- What a production reads up to the end of the tokens has one of the shapes of An+B. -/
theorem exists_ofTokens?_of_matches {values : List Token}
    (h : (firstOf (anPlusBProductions.map toEnd)).Matches tokens values rest) :
    ∃ p ∈ anPlusBProductions, ∃ middle, p.Matches tokens values middle ∧
      ∃ value, AnPlusB.ofTokens? values = some value := by
  obtain ⟨_, hmem, htoEnd⟩ := h.exists_mem_firstOf
  obtain ⟨p, hp, rfl⟩ := List.mem_map.1 hmem
  obtain ⟨_, middle, hvalues, hend⟩ := matches_bind_iff.1 htoEnd
  obtain ⟨_, _, -, hpure⟩ := matches_bind_iff.1 hend
  obtain ⟨rfl, -⟩ := matches_pure_iff.1 hpure
  obtain ⟨parts, hplays, hshape⟩ := readsParts_anPlusBProductions p hp _ _ _ hvalues
  exact ⟨p, hp, middle, hvalues, hplays.exists_ofTokens? hshape⟩

theorem exists_matches_anPlusB_iff :
    (∃ value rest, anPlusB.Matches tokens value rest) ↔ IsAnPlusB tokens := by
  constructor
  · rintro ⟨value, rest, h⟩
    obtain ⟨p, hp, values, middle, hmatches, hend, -⟩ := matches_anPlusB h
    exact ⟨p, hp, values, middle, hmatches, hend⟩
  · intro h
    obtain ⟨values, rest, hfirst⟩ := exists_matches_firstOf_toEnd h
    obtain ⟨_, -, _, -, value, hvalue⟩ := exists_ofTokens?_of_matches hfirst
    exact ⟨value, rest, matches_bind_iff.2 ⟨_, rest, hfirst, by simp [hvalue]⟩⟩

end Grammar

end CssSelectors
