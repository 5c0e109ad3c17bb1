import CssSelectors.Proofs.Locality

/-!
# Readings carried over to other tokens

All that a production asks of a token is which atom it is or how the function is named. It
asks neither where the token stands nor what the function holds. So a map of tokens that
keeps this much carries every reading over: from the mapped tokens the same productions
read the same tree with its tokens mapped, and look just as far. Only what the functions
hold is left to the grammars on both sides.
-/

namespace CssSelectors

/-! ## What is asked of a token -/

namespace Token

/-- The token without its place, and without arguments if it is a function. -/
def bare : Token → Token
  | .atom a _ => .atom a ⟨0, 0⟩
  | .function name _ _ => .function name [] ⟨0, 0⟩

/-- The map changes no more than the places of tokens and the arguments of functions. -/
def Faithful (φ : Token → Token) : Prop :=
  ∀ t, (φ t).bare = t.bare

/-- A condition that the bare token decides and the end of the text does not meet. -/
class Plain (accept : Token → Bool) : Prop where
  bare : ∀ t : Token, accept t.bare = accept t := by rintro (⟨⟨⟩, _⟩ | _) <;> rfl
  eof : accept (.atom .eof ⟨0, 0⟩) = false := by rfl

theorem Plain.apply_eof (accept : Token → Bool) [Plain accept] (span : Span) :
    accept (.atom .eof span) = false := by
  have hbare : accept (.atom .eof ⟨0, 0⟩) = accept (.atom .eof span) := Plain.bare (.atom .eof span)
  rw [← hbare]
  exact Plain.eof

instance : Plain isIdent := {}
instance : Plain isAtKeyword := {}
instance : Plain isHash := {}
instance : Plain isString := {}
instance : Plain isNumber := {}
instance : Plain isColon := {}
instance : Plain isComma := {}
instance : Plain isLeftBracket := {}
instance : Plain isRightBracket := {}
instance : Plain isFunction := {}
instance (c : Char) : Plain (isDelim c) := {}
instance : Plain Grammar.isPosition := {}
instance : Plain Grammar.isStructuralFunction := {}
instance (text : String) : Plain fun t => t.ident?.any (equalsIgnoringCase · text) := {}

theorem isInsignificant_bare (t : Token) : t.bare.isInsignificant = t.isInsignificant := by
  rcases t with ⟨⟨⟩, _⟩ | _ <;> rfl

theorem isWhitespace_bare (t : Token) : t.bare.isWhitespace = t.isWhitespace := by
  rcases t with ⟨⟨⟩, _⟩ | _ <;> rfl

theorem isEof_bare (t : Token) : t.bare.isEof = t.isEof := by
  rcases t with ⟨⟨⟩, _⟩ | _ <;> rfl

namespace Faithful

variable {φ : Token → Token} (hφ : Faithful φ)
include hφ

theorem apply_eq {accept : Token → Bool} (h : ∀ t : Token, accept t.bare = accept t) (t : Token) :
    accept (φ t) = accept t :=
  calc accept (φ t)
      = accept (φ t).bare := (h (φ t)).symm
    _ = accept t.bare := congrArg accept (hφ t)
    _ = accept t := h t

theorem takeWhile_map (tokens : List Token) :
    (tokens.map φ).takeWhile isInsignificant = (tokens.takeWhile isInsignificant).map φ := by
  rw [List.takeWhile_map]
  congr 2
  funext t
  exact hφ.apply_eq isInsignificant_bare t

theorem dropWhile_map (tokens : List Token) :
    (tokens.map φ).dropWhile isInsignificant = (tokens.dropWhile isInsignificant).map φ := by
  rw [List.dropWhile_map]
  congr 2
  funext t
  exact hφ.apply_eq isInsignificant_bare t

theorem any_isWhitespace_map (tokens : List Token) :
    (tokens.map φ).any isWhitespace = tokens.any isWhitespace := by
  rw [List.any_map]
  congr 1
  funext t
  exact hφ.apply_eq isWhitespace_bare t

theorem atEnd_map (tokens : List Token) : atEnd (tokens.map φ) = atEnd tokens := by
  unfold atEnd
  rw [hφ.dropWhile_map]
  cases tokens.dropWhile isInsignificant with
  | nil => rfl
  | cons t ts => exact hφ.apply_eq isEof_bare t

end Faithful

end Token

/-! ## Trees with other tokens -/

section Trees

variable (φ : Token → Token) (ψ : Arguments → Arguments)

def NsPrefix.mapTokens (ns : NsPrefix) : NsPrefix :=
  ⟨ns.value.map φ⟩

def QualifiedName.mapTokens (name : QualifiedName) : QualifiedName :=
  ⟨name.ns.map (NsPrefix.mapTokens φ), φ name.name⟩

def TypeSelector.mapTokens : TypeSelector → TypeSelector
  | .name qualified => .name (qualified.mapTokens φ)
  | .universal ns token => .universal (ns.map (NsPrefix.mapTokens φ)) (φ token)
  | .atKeyword token => .atKeyword (φ token)
  | .xpath function => .xpath (φ function)

def AttributeMatcher.mapTokens (matcher : AttributeMatcher) : AttributeMatcher :=
  ⟨matcher.kind, matcher.tokens.map φ⟩

def AttributeModifier.mapTokens (modifier : AttributeModifier) : AttributeModifier :=
  ⟨modifier.kind, φ modifier.token⟩

def AttributeTest.mapTokens (test : AttributeTest) : AttributeTest :=
  ⟨test.matcher.mapTokens φ, φ test.value, test.modifier.map (AttributeModifier.mapTokens φ)⟩

def AttributeName.mapTokens : AttributeName → AttributeName
  | .qualified name => .qualified (name.mapTokens φ)
  | .atKeyword token => .atKeyword (φ token)
  | .position token => .position (φ token)
  | .xpath function => .xpath (φ function)

def AttributeSelector.mapTokens (selector : AttributeSelector) : AttributeSelector :=
  ⟨selector.name.mapTokens φ, selector.test.map (AttributeTest.mapTokens φ)⟩

def Combinator.mapTokens (combinator : Combinator) : Combinator :=
  ⟨combinator.kind, combinator.tokens.map φ⟩

def PseudoClass.mapTokens : PseudoClass → PseudoClass
  | .plain name => .plain (φ name)
  | .function token arguments => .function (φ token) (ψ arguments)

def PseudoElement.mapTokens (element : PseudoElement) : PseudoElement :=
  ⟨element.element.mapTokens φ ψ, element.pseudoClasses.map (PseudoClass.mapTokens φ ψ)⟩

def Subclass.mapTokens : Subclass → Subclass
  | .id hash => .id (φ hash)
  | .className name => .className (φ name)
  | .attribute selector => .attribute (selector.mapTokens φ)
  | .pseudoClass selector => .pseudoClass (selector.mapTokens φ ψ)

def Compound.mapTokens (compound : Compound) : Compound :=
  ⟨compound.typeSelector.map (TypeSelector.mapTokens φ),
    compound.subclasses.map (Subclass.mapTokens φ ψ),
    compound.pseudoElements.map (PseudoElement.mapTokens φ ψ)⟩

def Complex.mapTokens : Complex → Complex
  | .last left => .last (left.mapTokens φ ψ)
  | .link left combinator right =>
    .link (left.mapTokens φ ψ) (combinator.mapTokens φ) right.mapTokens

/-- The selector with its tokens mapped by `φ` and the arguments of its functions by `ψ`. -/
def Selector.mapTokens : Selector → Selector
  | .complex chain => .complex (chain.mapTokens φ ψ)
  | .relative combinator chain =>
    .relative (combinator.map (Combinator.mapTokens φ)) (chain.mapTokens φ ψ)

variable {φ ψ}

theorem Compound.ofParts?_map (selector : Option TypeSelector) (parts : List Subclass)
    (elements : List PseudoElement) :
    ofParts? (selector.map (TypeSelector.mapTokens φ)) (parts.map (Subclass.mapTokens φ ψ))
        (elements.map (PseudoElement.mapTokens φ ψ)) =
      (ofParts? selector parts elements).map (Compound.mapTokens φ ψ) := by
  simp only [ofParts?, Option.isNone_map, List.isEmpty_map]
  split <;> rfl

theorem Complex.ofLinks_map (first : Compound) (links : List (Combinator × Compound)) :
    ofLinks (first.mapTokens φ ψ)
        (links.map (Prod.map (Combinator.mapTokens φ) (Compound.mapTokens φ ψ))) =
      (ofLinks first links).mapTokens φ ψ := by
  induction links generalizing first with
  | nil => rfl
  | cons link links ih => exact congrArg (Complex.link _ _) (ih link.2)

end Trees

/-! ## Carried readings -/

variable {α β γ δ : Type} {fit : Token → Prop} {φ : Token → Token}

/-- The outcome with its tokens mapped by `φ` and its value by `v`. -/
def Outcome.carry (φ : Token → Token) (v : α → β) : Outcome α → Outcome β
  | .matched a rest => .matched (v a) (rest.map φ)
  | .noMatch stuck => .noMatch (stuck.map φ)
  | .tooDeep => .tooDeep

/-- The second reading ends as the first does, in mapped tokens, and looked just as far. -/
structure Reading.Carried (φ : Token → Token) (v : α → β) (reading : Reading α)
    (reading' : Reading β) : Prop where
  outcome : reading'.outcome = reading.outcome.carry φ v
  unread : reading'.unread = reading.unread

namespace Reading.Carried

variable {v : α → β} {w : γ → δ} {reading : Reading α} {reading' : Reading β}

theorem after {earlier : Reading γ} {earlier' : Reading δ} (h : reading.Carried φ v reading')
    (hearlier : earlier.Carried φ w earlier') :
    (reading.after earlier).Carried φ v (reading'.after earlier') where
  outcome := h.outcome
  unread := by
    simp only [Reading.after]
    rw [h.unread, hearlier.unread]

theorem map (h : reading.Carried φ v reading') {f : α → γ} {f' : β → δ}
    (hf : ∀ a, w (f a) = f' (v a)) : (reading.map f).Carried φ w (reading'.map f') where
  outcome := by
    simp only [Reading.map]
    rw [h.outcome]
    cases reading.outcome with
    | matched a rest => exact congrArg (Outcome.matched · _) (hf a).symm
    | noMatch stuck => rfl
    | tooDeep => rfl
  unread := h.unread

theorem matched (h : reading.Carried φ v reading') {a : α} {rest : List Token}
    (ha : reading.outcome = .matched a rest) :
    reading'.outcome = .matched (v a) (rest.map φ) := by
  rw [h.outcome, ha]
  rfl

theorem noMatch (h : reading.Carried φ v reading') {stuck : List Token}
    (hstuck : reading.outcome = .noMatch stuck) : reading'.outcome = .noMatch (stuck.map φ) := by
  rw [h.outcome, hstuck]
  rfl

theorem tooDeep (h : reading.Carried φ v reading') (hdeep : reading.outcome = .tooDeep) :
    reading'.outcome = .tooDeep := by
  rw [h.outcome, hdeep]
  rfl

end Reading.Carried

namespace Production

/-- From tokens that are all fit, `p'` reads mapped ones as `p` reads the tokens themselves. -/
structure Carries (fit : Token → Prop) (φ : Token → Token) (v : α → β) (p : Production α)
    (p' : Production β) : Prop where
  advances : p.Advances
  carried : ∀ tokens, (∀ t ∈ tokens, fit t) → (p tokens).Carried φ v (p' (tokens.map φ))

namespace Carries

variable {v : α → β} {w : γ → δ} {p q : Production α} {p' q' : Production β}

theorem fit_of_matches (h : Carries fit φ v p p') {tokens rest : List Token} {a : α}
    (ha : p.Matches tokens a rest) (hfit : ∀ t ∈ tokens, fit t) : ∀ t ∈ rest, fit t :=
  fun t ht => hfit t ((h.advances.passes_of_matches ha).suffix.subset ht)

theorem pure (v : α → β) (a : α) : Carries fit φ v (pure a) (pure (v a)) where
  advances := advances_pure a
  carried := fun _ _ => ⟨rfl, rfl⟩

theorem fail (v : α → β) : Carries fit φ v fail fail where
  advances := advances_fail
  carried := fun _ _ => ⟨rfl, rfl⟩

theorem bind_of_carried {f : α → Production γ} {f' : β → Production δ}
    (hp : Carries fit φ v p p') (hadvances : ∀ a, (f a).Advances)
    (hf : ∀ tokens a rest, (∀ t ∈ tokens, fit t) → p.Matches tokens a rest →
      (f a rest).Carried φ w (f' (v a) (rest.map φ))) :
    Carries fit φ w (p >>= f) (p' >>= f') where
  advances := hp.advances.bind hadvances
  carried := by
    intro tokens hfit
    have hreading := hp.carried tokens hfit
    cases houtcome : (p tokens).outcome with
    | matched a rest =>
        rw [bind_eq_of_matched houtcome, bind_eq_of_matched (hreading.matched houtcome)]
        exact (hf tokens a rest hfit houtcome).after hreading
    | noMatch stuck =>
        rw [bind_eq_of_noMatch houtcome, bind_eq_of_noMatch (hreading.noMatch houtcome)]
        exact ⟨rfl, hreading.unread⟩
    | tooDeep =>
        rw [bind_eq_of_tooDeep houtcome, bind_eq_of_tooDeep (hreading.tooDeep houtcome)]
        exact ⟨rfl, hreading.unread⟩

theorem bind {f : α → Production γ} {f' : β → Production δ} (hp : Carries fit φ v p p')
    (hf : ∀ a, Carries fit φ w (f a) (f' (v a))) : Carries fit φ w (p >>= f) (p' >>= f') := by
  refine hp.bind_of_carried (fun a => (hf a).advances) fun tokens a rest hfit ha => ?_
  exact (hf a).carried rest (hp.fit_of_matches ha hfit)

theorem map {f : α → γ} {f' : β → δ} (hp : Carries fit φ v p p')
    (hf : ∀ a, w (f a) = f' (v a)) : Carries fit φ w (f <$> p) (f' <$> p') where
  advances := hp.advances.map f
  carried := fun tokens hfit => (hp.carried tokens hfit).map hf

theorem orElse (hp : Carries fit φ v p p') (hq : Carries fit φ v q q') :
    Carries fit φ v (orElse p q) (orElse p' q') where
  advances := hp.advances.orElse hq.advances
  carried := by
    intro tokens hfit
    have hreading := hp.carried tokens hfit
    cases houtcome : (p tokens).outcome with
    | matched a rest =>
        have hmatches : p.Matches tokens a rest := houtcome
        have hmatches' : p'.Matches (tokens.map φ) _ _ := hreading.matched houtcome
        rw [orElse_eq_of_not_refuses hmatches.not_refuses,
          orElse_eq_of_not_refuses hmatches'.not_refuses]
        exact hreading
    | noMatch stuck =>
        rw [orElse_eq_of_noMatch houtcome, orElse_eq_of_noMatch (hreading.noMatch houtcome)]
        exact (hq.carried tokens hfit).after hreading
    | tooDeep =>
        have hdeep : ¬ p.Refuses tokens := by simp [Refuses, houtcome]
        have hdeep' : ¬ p'.Refuses (tokens.map φ) := by
          simp [Refuses, hreading.tooDeep houtcome]
        rw [orElse_eq_of_not_refuses hdeep, orElse_eq_of_not_refuses hdeep']
        exact hreading

theorem iterate {step : Production (Option α)} {step' : Production (Option β)}
    (h : Carries fit φ (Option.map v) step step') :
    Carries fit φ (List.map v) (iterate step) (iterate step') where
  advances := h.advances.iterate
  carried := by
    intro tokens
    induction hn : tokens.length using Nat.strongRecOn generalizing tokens with
    | ind n ih =>
        intro hfit
        have hreading := h.carried tokens hfit
        cases houtcome : (step tokens).outcome with
        | matched item rest =>
            have houtcome' := hreading.matched houtcome
            cases item with
            | none =>
                rw [iterate_eq_of_none houtcome, iterate_eq_of_none houtcome']
                exact ⟨rfl, hreading.unread⟩
            | some a =>
                have hlength : (rest.map φ).length < (tokens.map φ).length ↔
                    rest.length < tokens.length := by simp
                by_cases hlt : rest.length < tokens.length
                · rw [iterate_eq_of_lt houtcome hlt,
                    iterate_eq_of_lt houtcome' (hlength.2 hlt)]
                  have hrest := h.fit_of_matches houtcome hfit
                  refine Reading.Carried.after ?_ hreading
                  exact (ih rest.length (hn ▸ hlt) rest rfl hrest).map fun _ => rfl
                · rw [iterate_eq_of_not_lt houtcome hlt,
                    iterate_eq_of_not_lt houtcome' (mt hlength.1 hlt)]
                  exact ⟨rfl, hreading.unread⟩
        | noMatch stuck =>
            rw [iterate_eq_of_noMatch houtcome, iterate_eq_of_noMatch (hreading.noMatch houtcome)]
            exact ⟨rfl, hreading.unread⟩
        | tooDeep =>
            rw [iterate_eq_of_tooDeep houtcome, iterate_eq_of_tooDeep (hreading.tooDeep houtcome)]
            exact ⟨rfl, hreading.unread⟩

theorem firstOf {ps : List (Production α)} {ps' : List (Production β)}
    (hps : List.Forall₂ (Carries fit φ v) ps ps') :
    Carries fit φ v (firstOf ps) (firstOf ps') := by
  induction hps with
  | nil => exact fail v
  | cons hp _ ih => exact hp.orElse ih

theorem optional (hp : Carries fit φ v p p') :
    Carries fit φ (Option.map v) (optional p) (optional p') := by
  refine orElse ?_ (pure _ none)
  exact hp.map fun _ => rfl

theorem many (hp : Carries fit φ v p p') : Carries fit φ (List.map v) (many p) (many p') :=
  hp.optional.iterate

end Carries

end Production

/-! ## The productions of selectors -/

namespace Token.Faithful

open Production Grammar

variable {dialect : Dialect} {g g' : Grammar} {ψ : Arguments → Arguments} (hφ : Faithful φ)
include hφ

theorem token {accept : Token → Bool} [Plain accept] :
    Carries fit φ φ (token accept) (token accept) where
  advances := by
    have hheeds : (Production.token accept).Heeds False := heeds_token (Plain.apply_eof accept)
    exact hheeds.advances
  carried := by
    intro tokens _
    cases tokens with
    | nil => exact ⟨rfl, rfl⟩
    | cons t ts =>
        have haccept : accept (φ t) = accept t := hφ.apply_eq Plain.bare t
        constructor
        · simp only [Production.token, List.map_cons, haccept]
          split <;> rfl
        · simp only [Production.token, List.map_cons, List.length_map]

theorem insignificant : Carries fit φ (List.map φ) insignificant insignificant where
  advances := advances_insignificant
  carried := by
    intro tokens _
    constructor
    · simp only [Production.insignificant, hφ.takeWhile_map, hφ.dropWhile_map]
      rfl
    · simp only [Production.insignificant, hφ.takeWhile_map, hφ.dropWhile_map, List.isEmpty_map,
        List.length_map]

theorem skip : Carries fit φ id skip skip :=
  hφ.insignificant.bind fun _ => Carries.pure id ()

theorem spelled (symbol : List Char) :
    Carries fit φ (List.map φ) (spelled symbol) (spelled symbol) := by
  induction symbol with
  | nil => exact Carries.pure _ []
  | cons c cs ih => exact hφ.token.bind fun _ => ih.bind fun _ => Carries.pure _ _

theorem nsPrefix : Carries fit φ (NsPrefix.mapTokens φ) nsPrefix nsPrefix := by
  have hvalue : Carries fit φ φ nsValue nsValue :=
    .firstOf (.cons hφ.token (.cons hφ.token .nil))
  exact hvalue.optional.bind fun _ => hφ.token.bind fun _ => Carries.pure _ _

theorem qualifiedName : Carries fit φ (QualifiedName.mapTokens φ) qualifiedName qualifiedName := by
  have hprefixed : Carries fit φ (QualifiedName.mapTokens φ) prefixedName prefixedName :=
    hφ.nsPrefix.bind fun _ => hφ.token.bind fun _ => Carries.pure _ _
  have hplain : Carries fit φ (QualifiedName.mapTokens φ) plainName plainName :=
    hφ.token.bind fun _ => Carries.pure _ _
  exact .firstOf (.cons hprefixed (.cons hplain .nil))

theorem typeSelector :
    Carries fit φ (TypeSelector.mapTokens φ) (typeSelector dialect) (typeSelector dialect) := by
  have huniversal : Carries fit φ (TypeSelector.mapTokens φ) universal universal :=
    hφ.nsPrefix.optional.bind fun _ => hφ.token.bind fun _ => Carries.pure _ _
  have hname : Carries fit φ (TypeSelector.mapTokens φ) (.name <$> Grammar.qualifiedName)
      (.name <$> Grammar.qualifiedName) := hφ.qualifiedName.map fun _ => rfl
  have hstandard : Carries fit φ (TypeSelector.mapTokens φ) standardType standardType :=
    .firstOf (.cons huniversal (.cons hname .nil))
  cases dialect with
  | standard => exact hstandard
  | extended =>
      refine .firstOf (.cons ?_ (.cons ?_ (.cons hstandard .nil)))
      · exact hφ.token.map fun _ => rfl
      · exact hφ.token.map fun _ => rfl

theorem attributeMatcher :
    Carries fit φ (AttributeMatcher.mapTokens φ) (attributeMatcher dialect)
      (attributeMatcher dialect) := by
  have hmatcher (kind : MatcherKind) :
      Carries fit φ (AttributeMatcher.mapTokens φ) (matcher kind) (matcher kind) :=
    (hφ.spelled _).bind fun _ => Carries.pure _ _
  have hstandard :
      Carries fit φ (AttributeMatcher.mapTokens φ) standardMatcher standardMatcher := by
    rw [standardMatcher_eq]
    apply Carries.firstOf
    rw [List.forall₂_map_left_iff, List.forall₂_map_right_iff, List.forall₂_same]
    exact fun kind _ => hmatcher kind
  cases dialect with
  | standard => exact hstandard
  | extended => exact .firstOf (.cons (hmatcher _) (.cons hstandard .nil))

theorem attributeModifier :
    Carries fit φ (AttributeModifier.mapTokens φ) attributeModifier attributeModifier := by
  have hword (text : String) : Carries fit φ φ (word text) (word text) := hφ.token
  refine .firstOf (.cons ?_ (.cons ?_ .nil))
  · exact (hword "i").bind fun _ => Carries.pure _ _
  · exact (hword "s").bind fun _ => Carries.pure _ _

theorem attributeTest :
    Carries fit φ (AttributeTest.mapTokens φ) (attributeTest dialect) (attributeTest dialect) := by
  have hvalue : Carries fit φ φ attributeValue attributeValue :=
    .firstOf (.cons hφ.token (.cons hφ.token (.cons hφ.token .nil)))
  rw [attributeTest_eq]
  refine hφ.attributeMatcher.bind fun _ => hφ.skip.bind fun _ => hvalue.bind fun _ => ?_
  refine hφ.skip.bind fun _ => hφ.attributeModifier.optional.bind fun _ => ?_
  exact hφ.skip.bind fun _ => hφ.token.bind fun _ => Carries.pure _ _

theorem attributeTail :
    Carries fit φ (Option.map (AttributeTest.mapTokens φ)) (attributeTail dialect)
      (attributeTail dialect) := by
  have hbracket : Carries fit φ φ (Production.token isRightBracket)
      (Production.token isRightBracket) := hφ.token
  refine hbracket.optional.bind fun bracket => ?_
  cases bracket with
  | some _ => exact Carries.pure _ none
  | none => exact hφ.attributeTest.map fun _ => rfl

theorem attributeSelector :
    Carries fit φ (AttributeSelector.mapTokens φ) (attributeSelector dialect)
      (attributeSelector dialect) := by
  have hstandard : Carries fit φ (AttributeSelector.mapTokens φ) (standardAttribute dialect)
      (standardAttribute dialect) := by
    refine hφ.token.bind fun _ => hφ.skip.bind fun _ => hφ.qualifiedName.bind fun _ => ?_
    exact hφ.skip.bind fun _ => hφ.attributeTail.bind fun _ => Carries.pure _ _
  have hbracketed {accept : Token → Bool} [Plain accept] :
      Carries fit φ φ (bracketedSubject accept) (bracketedSubject accept) := by
    refine hφ.token.bind fun _ => hφ.skip.bind fun _ => hφ.token.bind fun _ => ?_
    exact hφ.skip.bind fun _ => Carries.pure _ _
  have hsubject {accept : Token → Bool} [Plain accept] {name : Token → AttributeName}
      (hname : ∀ t, (name t).mapTokens φ = name (φ t)) :
      Carries fit φ (AttributeSelector.mapTokens φ) (subjectSelector accept name)
        (subjectSelector accept name) := by
    refine hbracketed.bind fun t => hφ.attributeTail.bind fun test => ?_
    rw [← hname]
    exact Carries.pure _ _
  have hposition :
      Carries fit φ (AttributeSelector.mapTokens φ) positionSelector positionSelector :=
    hbracketed.bind fun _ => hφ.token.bind fun _ => Carries.pure _ _
  cases dialect with
  | standard => exact hstandard
  | extended =>
      rw [attributeSelector_extended_eq]
      refine .firstOf (.cons hstandard (.cons ?_ (.cons hposition (.cons ?_ .nil))))
      · exact hsubject fun _ => rfl
      · exact hsubject fun _ => rfl

theorem combinator :
    Carries fit φ (Combinator.mapTokens φ) (combinator dialect) (combinator dialect) := by
  have hoperator (kind : CombinatorKind) (symbol : List Char) :
      Carries fit φ (Combinator.mapTokens φ) (operator kind symbol) (operator kind symbol) := by
    refine hφ.skip.bind fun _ => (hφ.spelled symbol).bind fun _ => ?_
    exact hφ.skip.bind fun _ => Carries.pure _ _
  have hdescendant :
      Carries fit φ (Combinator.mapTokens φ) descendantCombinator descendantCombinator := by
    refine hφ.insignificant.bind fun blank => ?_
    rw [hφ.any_isWhitespace_map]
    split
    · exact Carries.pure _ _
    · exact Carries.fail _
  have hstandard :
      Carries fit φ (Combinator.mapTokens φ) standardCombinator standardCombinator :=
    .firstOf <| .cons (hoperator _ _) <| .cons (hoperator _ _) <| .cons (hoperator _ _) <|
      .cons (hoperator _ _) <| .cons hdescendant .nil
  cases dialect with
  | standard => exact hstandard
  | extended =>
      exact .firstOf (.cons (hoperator _ _) (.cons (hoperator _ _) (.cons hstandard .nil)))

theorem comma : Carries fit φ φ comma comma :=
  hφ.skip.bind fun _ => hφ.token

/-! Grammars of one dialect that read the same functions, each in its own way. -/

section Grammars

variable (hcall : Carries fit φ (PseudoClass.mapTokens φ ψ) (functionCall g) (functionCall g'))
include hcall

theorem pseudoClass :
    Carries fit φ (PseudoClass.mapTokens φ ψ) (pseudoClass g) (pseudoClass g') := by
  rw [pseudoClass_eq, pseudoClass_eq]
  refine hφ.token.bind fun _ => .firstOf (.cons ?_ (.cons hcall .nil))
  exact hφ.token.map fun _ => rfl

theorem pseudoElement :
    Carries fit φ (PseudoElement.mapTokens φ ψ) (pseudoElement g) (pseudoElement g') := by
  refine hφ.token.bind fun _ => (hφ.pseudoClass hcall).bind fun _ => ?_
  exact (hφ.pseudoClass hcall).many.bind fun _ => Carries.pure _ _

variable (hdialect : g.dialect = g'.dialect)
include hdialect

theorem subclass : Carries fit φ (Subclass.mapTokens φ ψ) (subclass g) (subclass g') := by
  have hclass : Carries fit φ φ classSelector classSelector :=
    hφ.token.bind fun _ => hφ.token
  unfold Grammar.subclass
  rw [← hdialect]
  refine .firstOf (.cons ?_ (.cons ?_ (.cons ?_ (.cons ?_ .nil))))
  · exact hφ.token.map fun _ => rfl
  · exact hclass.map fun _ => rfl
  · exact hφ.attributeSelector.map fun _ => rfl
  · exact (hφ.pseudoClass hcall).map fun _ => rfl

theorem compound : Carries fit φ (Compound.mapTokens φ ψ) (compound g) (compound g') := by
  rw [compound_eq, compound_eq, ← hdialect]
  refine hφ.typeSelector.optional.bind fun selector => ?_
  refine (hφ.subclass hcall hdialect).many.bind fun parts => ?_
  refine (hφ.pseudoElement hcall).many.bind fun elements => ?_
  unfold ofParts
  rw [Compound.ofParts?_map]
  cases Compound.ofParts? selector parts elements with
  | some compound => exact Carries.pure _ _
  | none => exact Carries.fail _

theorem complexSelector :
    Carries fit φ (Complex.mapTokens φ ψ) (complexSelector g) (complexSelector g') := by
  have hcompound : Carries fit φ (Compound.mapTokens φ ψ) (Grammar.compound g)
      (Grammar.compound g') := hφ.compound hcall hdialect
  have hlink : Carries fit φ (Prod.map (Combinator.mapTokens φ) (Compound.mapTokens φ ψ)) (link g)
      (link g') := by
    unfold link
    rw [← hdialect]
    exact hφ.combinator.bind fun _ => hcompound.bind fun _ => Carries.pure _ _
  refine hcompound.bind fun first => hlink.many.bind fun links => ?_
  rw [Complex.ofLinks_map]
  exact Carries.pure _ _

theorem selector : Carries fit φ (Selector.mapTokens φ ψ) (selector g) (selector g') := by
  have hchain : Carries fit φ (Complex.mapTokens φ ψ) (Grammar.complexSelector g)
      (Grammar.complexSelector g') := hφ.complexSelector hcall hdialect
  refine .firstOf (.cons ?_ (.cons ?_ .nil))
  · exact hchain.map fun _ => rfl
  · unfold relativeSelector
    rw [← hdialect]
    exact hφ.combinator.optional.bind fun _ => hchain.bind fun _ => Carries.pure _ _

theorem wholeList :
    Carries fit φ (List.map (Selector.mapTokens φ ψ)) (wholeList g) (wholeList g') := by
  have hselector : Carries fit φ (Selector.mapTokens φ ψ) (Grammar.selector g)
      (Grammar.selector g') := hφ.selector hcall hdialect
  have hnext : Carries fit φ (Option.map (Selector.mapTokens φ ψ))
      (nextItem (Grammar.selector g)) (nextItem (Grammar.selector g')) := by
    refine hφ.comma.optional.bind fun item => ?_
    cases item with
    | none => exact Carries.pure _ none
    | some _ =>
        refine hφ.skip.bind fun _ => ?_
        exact hselector.map fun _ => rfl
  refine hφ.skip.bind fun _ => ?_
  rw [selectorList_eq, selectorList_eq]
  exact hselector.bind fun _ => hnext.iterate.bind fun _ => Carries.pure _ _

end Grammars

end Token.Faithful

end CssSelectors
