import CssSelectors.Proofs.AnPlusB
import CssSelectors.Proofs.Outside

/-!
# Where tokens stand

Nothing is read of the places of tokens, neither outside of functions nor inside at any
depth. Tokens that agree but for their places form lists that do so too, or the same
token is named in the error, or the same limit.
-/

namespace CssSelectors

open Production

/-! ## Trees with other tokens at every depth -/

def AnPlusB.mapTokens (φ : Token → Token) (value : AnPlusB) : AnPlusB :=
  ⟨value.values.map φ, value.a, value.b⟩

section Trees

variable (φ : Token → Token)

mutual

/-- The selector with all of its tokens mapped, those that functions hold included. -/
def Selector.mapDeep : Selector → Selector
  | .complex chain => .complex chain.mapDeep
  | .relative combinator chain =>
    .relative (combinator.map (Combinator.mapTokens φ)) chain.mapDeep

def Complex.mapDeep : Complex → Complex
  | .last left => .last left.mapDeep
  | .link left combinator right => .link left.mapDeep (combinator.mapTokens φ) right.mapDeep

def Compound.mapDeep : Compound → Compound
  | ⟨typeSelector, subclasses, pseudoElements⟩ =>
    ⟨typeSelector.map (TypeSelector.mapTokens φ), Subclass.mapDeepAll subclasses,
      PseudoElement.mapDeepAll pseudoElements⟩

def Subclass.mapDeepAll : List Subclass → List Subclass
  | [] => []
  | subclass :: subclasses => subclass.mapDeep :: Subclass.mapDeepAll subclasses

def Subclass.mapDeep : Subclass → Subclass
  | .id hash => .id (φ hash)
  | .className name => .className (φ name)
  | .attribute selector => .attribute (selector.mapTokens φ)
  | .pseudoClass selector => .pseudoClass selector.mapDeep

def PseudoElement.mapDeepAll : List PseudoElement → List PseudoElement
  | [] => []
  | ⟨element, pseudoClasses⟩ :: groups =>
    ⟨element.mapDeep, PseudoClass.mapDeepAll pseudoClasses⟩ :: PseudoElement.mapDeepAll groups

def PseudoClass.mapDeepAll : List PseudoClass → List PseudoClass
  | [] => []
  | selector :: selectors => selector.mapDeep :: PseudoClass.mapDeepAll selectors

def PseudoClass.mapDeep : PseudoClass → PseudoClass
  | .plain name => .plain (φ name)
  | .function token arguments => .function (φ token) arguments.mapDeep

def Arguments.mapDeep : Arguments → Arguments
  | .empty => .empty
  | .anPlusB value => .anPlusB (value.mapTokens φ)
  | .selectors list => .selectors (Selector.mapDeepAll list)
  | .raw tokens => .raw (tokens.map φ)

def Selector.mapDeepAll : List Selector → List Selector
  | [] => []
  | selector :: selectors => selector.mapDeep :: Selector.mapDeepAll selectors

end

variable {φ}

/-! Outside of functions, this is the map of the tree alone. -/

theorem PseudoClass.mapDeep_eq (selector : PseudoClass) :
    selector.mapDeep φ = selector.mapTokens φ (Arguments.mapDeep φ) := by
  cases selector <;> rfl

theorem PseudoClass.mapDeepAll_eq (selectors : List PseudoClass) :
    mapDeepAll φ selectors = selectors.map (mapTokens φ (Arguments.mapDeep φ)) := by
  induction selectors with
  | nil => rfl
  | cons selector selectors ih => exact congrArg₂ List.cons selector.mapDeep_eq ih

theorem PseudoElement.mapDeepAll_eq (groups : List PseudoElement) :
    mapDeepAll φ groups = groups.map (mapTokens φ (Arguments.mapDeep φ)) := by
  induction groups with
  | nil => rfl
  | cons group groups ih =>
      obtain ⟨element, pseudoClasses⟩ := group
      rw [mapDeepAll, element.mapDeep_eq, PseudoClass.mapDeepAll_eq, ih]
      rfl

theorem Subclass.mapDeepAll_eq (subclasses : List Subclass) :
    mapDeepAll φ subclasses = subclasses.map (mapTokens φ (Arguments.mapDeep φ)) := by
  have hsubclass (subclass : Subclass) :
      subclass.mapDeep φ = subclass.mapTokens φ (Arguments.mapDeep φ) := by
    rcases subclass with _ | _ | _ | selector
    · rfl
    · rfl
    · rfl
    · exact congrArg Subclass.pseudoClass selector.mapDeep_eq
  induction subclasses with
  | nil => rfl
  | cons subclass subclasses ih => exact congrArg₂ List.cons (hsubclass subclass) ih

theorem Compound.mapDeep_eq (compound : Compound) :
    compound.mapDeep φ = compound.mapTokens φ (Arguments.mapDeep φ) := by
  obtain ⟨typeSelector, subclasses, pseudoElements⟩ := compound
  rw [mapDeep, Subclass.mapDeepAll_eq, PseudoElement.mapDeepAll_eq]
  rfl

theorem Complex.mapDeep_eq (chain : Complex) :
    chain.mapDeep φ = chain.mapTokens φ (Arguments.mapDeep φ) := by
  induction chain using Complex.compounds.induct with
  | case1 left => exact congrArg Complex.last left.mapDeep_eq
  | case2 left combinator right ih =>
      exact congrArg₂ (Complex.link · _ ·) left.mapDeep_eq ih

theorem Selector.mapDeep_eq (selector : Selector) :
    selector.mapDeep φ = selector.mapTokens φ (Arguments.mapDeep φ) := by
  cases selector with
  | complex chain => exact congrArg Selector.complex chain.mapDeep_eq
  | relative combinator chain => exact congrArg (Selector.relative _) chain.mapDeep_eq

theorem Selector.mapDeepAll_eq (selectors : List Selector) :
    mapDeepAll φ selectors = selectors.map (mapTokens φ (Arguments.mapDeep φ)) := by
  induction selectors with
  | nil => rfl
  | cons selector selectors ih => exact congrArg₂ List.cons selector.mapDeep_eq ih

theorem Arguments.mapDeep_selectors (list : List Selector) :
    mapDeep φ (.selectors list) =
      .selectors (list.map (Selector.mapTokens φ (Arguments.mapDeep φ))) :=
  congrArg Arguments.selectors (Selector.mapDeepAll_eq list)

end Trees

/-! ## An+B of other tokens -/

theorem AnPlusB.Part.ofToken?_bare (t : Token) : ofToken? t.bare = ofToken? t := by
  rcases t with ⟨a, span⟩ | _
  · cases a with
    | delim c =>
        -- signs are told apart by their code points alone
        by_cases hplus : c = '+'
        · subst hplus
          rfl
        · by_cases hminus : c = '-'
          · subst hminus
            rfl
          · simp [Token.bare, ofToken?, hplus, hminus]
    | _ => rfl
  · rfl

namespace Token.Faithful

open Grammar

variable {φ : Token → Token} {fit : Token → Prop} (hφ : Faithful φ)
include hφ

theorem derive_map (tokens : List Token) :
    AnPlusB.derive (tokens.map φ) = AnPlusB.derive tokens := by
  have hsignificant (t : Token) :
      (!(φ t).isInsignificant && !(φ t).isEof) = (!t.isInsignificant && !t.isEof) := by
    rw [hφ.apply_eq isInsignificant_bare, hφ.apply_eq isEof_bare]
  have hpart (t : Token) : AnPlusB.Part.ofToken? (φ t) = AnPlusB.Part.ofToken? t := by
    rw [← AnPlusB.Part.ofToken?_bare, hφ t, AnPlusB.Part.ofToken?_bare]
  have hparts : AnPlusB.parts? (tokens.map φ) = AnPlusB.parts? tokens := by
    unfold AnPlusB.parts?
    rw [List.filter_map, List.mapM_map]
    simp only [Function.comp_def, hsignificant, hpart]
  rw [AnPlusB.derive, hparts, AnPlusB.derive]

theorem ofTokens?_map (tokens : List Token) :
    AnPlusB.ofTokens? (tokens.map φ) = (AnPlusB.ofTokens? tokens).map (AnPlusB.mapTokens φ) := by
  rw [AnPlusB.ofTokens?, AnPlusB.ofTokens?, hφ.derive_map, Option.map_map]
  rfl

theorem integerToken (signed : Option Bool) :
    Carries fit φ φ (integerToken signed) (integerToken signed) := by
  refine @Faithful.token fit φ hφ _ ?_
  exact {}

theorem dimensionToken (accept : String → Bool) :
    Carries fit φ φ (dimensionToken accept) (dimensionToken accept) := by
  refine @Faithful.token fit φ hφ _ ?_
  exact {}

theorem identToken (accept : String → Bool) :
    Carries fit φ φ (identToken accept) (identToken accept) := by
  have hplain : Plain fun t => t.ident?.any accept := {}
  exact hφ.token

omit hφ in
theorem oneToken {p : Production Token} (hp : Carries fit φ φ p p) :
    Carries fit φ (List.map φ) (oneToken p) (oneToken p) :=
  hp.bind fun _ => Carries.pure _ _

theorem plusThenIdent (accept : String → Bool) :
    Carries fit φ (List.map φ) (plusThenIdent accept) (plusThenIdent accept) := by
  have hplus : Carries fit φ φ (Production.token (isDelim '+')) (Production.token (isDelim '+')) :=
    hφ.token
  refine hplus.optional.bind fun plus => (hφ.identToken accept).bind fun name => ?_
  cases plus <;> exact Carries.pure _ _

theorem steps (suffix : String) :
    Carries fit φ (List.map φ) (firstOf (steps suffix)) (firstOf (steps suffix)) :=
  .firstOf <| .cons (oneToken (hφ.dimensionToken _)) <| .cons (hφ.plusThenIdent _) <|
    .cons (oneToken (hφ.identToken _)) .nil

omit hφ in
theorem return_append (front back : List Token) :
    Carries fit φ (List.map φ) (pure (front ++ back)) (pure (front.map φ ++ back.map φ)) := by
  rw [← List.map_append]
  exact Carries.pure _ _

theorem anPlusBProductions :
    ∀ p ∈ anPlusBProductions, Carries fit φ (List.map φ) p p := by
  have hword (text : String) : Carries fit φ φ (word text) (word text) := hφ.token
  have hoffset (suffix : String) (signed : Bool) (p : Production (List Token))
      (hp : p = do
        let step ← firstOf (Grammar.steps suffix)
        Production.skip
        let offset ← Grammar.integerToken (some signed)
        return step ++ [offset]) : Carries fit φ (List.map φ) p p := by
    subst hp
    refine (hφ.steps suffix).bind fun step => hφ.skip.bind fun _ => ?_
    exact (hφ.integerToken _).bind fun offset => return_append step [offset]
  have hsign (sign : Char) :
      Carries fit φ (List.map φ) (nSignSignless sign) (nSignSignless sign) := by
    refine (hφ.steps "").bind fun step => hφ.skip.bind fun _ => hφ.token.bind fun delim => ?_
    refine hφ.skip.bind fun _ => (hφ.integerToken _).bind fun offset => ?_
    exact return_append step [delim, offset]
  simp only [Grammar.anPlusBProductions, List.forall_mem_cons, List.not_mem_nil, false_implies,
    implies_true, and_true]
  refine ⟨oneToken (hword _), oneToken (hword _), oneToken (hφ.integerToken _),
    oneToken (hφ.dimensionToken _), hφ.plusThenIdent _, oneToken (hφ.identToken _),
    oneToken (hφ.dimensionToken _), hφ.plusThenIdent _, oneToken (hφ.identToken _),
    hoffset "" true _ rfl, hoffset "-" false _ rfl, hsign _, hsign _⟩

theorem endOfInput : Carries fit φ id endOfInput endOfInput := by
  rw [endOfInput_eq]
  refine hφ.skip.bind fun _ => ⟨?_, ?_⟩
  · intro tokens rest h
    have hrest : rest = tokens := by
      by_cases hend : atEnd tokens = true <;> simpa [endHere, hend, Outcome.left?, eq_comm] using h
    exact hrest ▸ .refl tokens
  · intro tokens _
    constructor
    · simp only [endHere, hφ.atEnd_map]
      split <;> rfl
    · rfl

theorem anPlusB : Carries fit φ (AnPlusB.mapTokens φ) anPlusB anPlusB := by
  have htoEnd {p : Production (List Token)} (hp : Carries fit φ (List.map φ) p p) :
      Carries fit φ (List.map φ) (toEnd p) (toEnd p) :=
    hp.bind fun _ => hφ.endOfInput.bind fun _ => Carries.pure _ _
  have hvalues : Carries fit φ (List.map φ) (firstOf (Grammar.anPlusBProductions.map toEnd))
      (firstOf (Grammar.anPlusBProductions.map toEnd)) := by
    apply Carries.firstOf
    rw [List.forall₂_map_left_iff, List.forall₂_map_right_iff, List.forall₂_same]
    exact fun p hp => htoEnd (hφ.anPlusBProductions p hp)
  refine hvalues.bind fun values => ?_
  rw [hφ.ofTokens?_map]
  cases AnPlusB.ofTokens? values with
  | some value => exact Carries.pure _ _
  | none => exact Carries.fail _

theorem trim_map (tokens : List Token) : trim (tokens.map φ) = (trim tokens).map φ := by
  rw [trim, trim, hφ.dropWhile_map, ← List.map_reverse, hφ.dropWhile_map, List.map_reverse]

end Token.Faithful

/-! ## Functions of other tokens -/

def Token.Reaching (φ : Token → Token) : Prop :=
  ∀ t : Token, (φ t).arguments? = t.arguments?.map (List.map φ)

namespace Grammar

variable {φ : Token → Token} (hφ : Token.Faithful φ) (hdeep : Token.Reaching φ)
include hφ

theorem carried_readNested {inner : Grammar}
    (hlist : Carries (fun _ => True) φ (List.map (Selector.mapTokens φ (Arguments.mapDeep φ)))
      (wholeList inner) (wholeList inner)) (name name' : String) (ts rest : List Token) :
    (readNested inner name ts rest).Carried φ (Arguments.mapDeep φ)
      (readNested inner name' (ts.map φ) (rest.map φ)) := by
  have hvalue := hφ.anPlusB.carried ts fun _ _ => trivial
  have hreading := hlist.carried ts fun _ _ => trivial
  refine ⟨?_, by rw [unread_readNested, unread_readNested]⟩
  cases houtcome : (anPlusB ts).outcome with
  | matched value leftover =>
      simp only [readNested, houtcome, hvalue.matched houtcome]
      rfl
  | _ =>
      have hno : ∀ value leftover, ¬ anPlusB.Matches ts value leftover := by
        simp [Matches, houtcome]
      have hno' : ∀ value leftover, ¬ anPlusB.Matches (ts.map φ) value leftover := by
        simp [Matches, hvalue.outcome, houtcome, Outcome.carry]
      rw [outcome_readNested hno, outcome_readNested hno', hreading.outcome]
      cases (wholeList inner ts).outcome with
      | matched list leftover =>
          simp only [Outcome.carry, hφ.atEnd_map]
          split
          · exact congrArg (Outcome.matched · _) (Arguments.mapDeep_selectors list).symm
          · rfl
      | noMatch stuck => rfl
      | tooDeep => rfl

include hdeep in
theorem argumentTokens_map (function : Token) :
    argumentTokens (φ function) = (argumentTokens function).map φ := by
  rw [argumentTokens, argumentTokens, hdeep, ← hφ.trim_map]
  cases function.arguments? <;> rfl

include hdeep

theorem carries_readArguments {dialect : Dialect} {levels : Nat}
    (hlist : ∀ fewer, levels = fewer + 1 →
      Carries (fun _ => True) φ (List.map (Selector.mapTokens φ (Arguments.mapDeep φ)))
        (wholeList (ofLevels dialect fewer)) (wholeList (ofLevels dialect fewer)))
    (function : Token) :
    Carries (fun _ => True) φ (Arguments.mapDeep φ) (readArguments dialect levels function)
      (readArguments dialect levels (φ function)) := by
  have hmap := argumentTokens_map hφ hdeep function
  by_cases hnil : argumentTokens function = []
  · rw [hnil, List.map_nil] at hmap
    rw [readArguments_of_nil hnil, readArguments_of_nil hmap]
    exact Carries.pure _ Arguments.empty
  · have hnil' : argumentTokens (φ function) ≠ [] := by
      rwa [hmap, ne_eq, List.map_eq_nil_iff]
    refine ⟨(heeds_readArguments levels function).advances, fun rest _ => ?_⟩
    cases levels with
    | zero =>
        rw [readArguments_zero hnil, readArguments_zero hnil']
        exact ⟨rfl, rfl⟩
    | succ levels =>
        rw [readArguments_succ hnil, readArguments_succ hnil', hmap]
        exact carried_readNested hφ (hlist levels rfl) _ _ _ rest

theorem carries_wholeList_ofLevels (dialect : Dialect) (levels : Nat) :
    Carries (fun _ => True) φ (List.map (Selector.mapTokens φ (Arguments.mapDeep φ)))
      (wholeList (ofLevels dialect levels)) (wholeList (ofLevels dialect levels)) := by
  have hstep (levels : Nat)
      (h : ∀ function, Carries (fun _ => True) φ (Arguments.mapDeep φ)
        (readArguments dialect levels function) (readArguments dialect levels (φ function))) :
      Carries (fun _ => True) φ (List.map (Selector.mapTokens φ (Arguments.mapDeep φ)))
        (wholeList (ofLevels dialect levels)) (wholeList (ofLevels dialect levels)) := by
    refine hφ.wholeList ?_ rfl
    exact hφ.token.bind fun function => (h function).bind fun _ => Carries.pure _ _
  induction levels with
  | zero => exact hstep 0 (carries_readArguments hφ hdeep fun _ h => nomatch h)
  | succ levels ih =>
      refine hstep (levels + 1) (carries_readArguments hφ hdeep ?_)
      rintro _ ⟨⟩
      exact ih

end Grammar

/-! ## Tokens without their places -/

namespace Token

mutual

/-- The token without its place, and without those of the tokens that it holds. -/
def unplaced : Token → Token
  | .atom a _ => .atom a ⟨0, 0⟩
  | .function name arguments _ => .function name (unplacedAll arguments) ⟨0, 0⟩

def unplacedAll : List Token → List Token
  | [] => []
  | t :: ts => t.unplaced :: unplacedAll ts

end

theorem unplacedAll_eq_map (tokens : List Token) : unplacedAll tokens = tokens.map unplaced := by
  induction tokens with
  | nil => rfl
  | cons t ts ih => exact congrArg (List.cons _) ih

theorem faithful_unplaced : Faithful unplaced := by
  rintro (_ | _) <;> rfl

theorem reaching_unplaced : Reaching unplaced := by
  rintro (_ | ⟨name, arguments, span⟩)
  · rfl
  · exact congrArg some (unplacedAll_eq_map arguments)

mutual

theorem text_unplaced (t : Token) : t.unplaced.text = t.text := by
  cases t with
  | atom a span => rfl
  | function name arguments span => simp only [unplaced, text, textOfList_unplacedAll arguments]

theorem textOfList_unplacedAll (tokens : List Token) :
    textOfList (unplacedAll tokens) = textOfList tokens := by
  cases tokens with
  | nil => rfl
  | cons t ts => simp only [unplacedAll, textOfList, text_unplaced t, textOfList_unplacedAll ts]

end

theorem describe_unplaced (t : Token) : t.unplaced.describe = t.describe := by
  cases t with
  | atom a span => cases a <;> rfl
  | function name arguments span =>
      have htext := text_unplaced (.function name arguments span)
      exact congrArg (fun text => "\"" ++ text ++ "\"") htext

theorem describe_getOrEnd_unplaced (tokens : List Token) (k : Nat) :
    (getOrEnd (tokens.map unplaced) k).describe = (getOrEnd tokens k).describe := by
  unfold getOrEnd
  rw [List.getElem?_map]
  cases tokens[k]? with
  | some t => exact t.describe_unplaced
  | none => rfl

end Token

def Selector.unplaced : Selector → Selector :=
  mapDeep Token.unplaced

variable {options : Options} {tokens tokens' : List Token}

theorem carried_wholeList_unplaced (options : Options) (tokens : List Token) :
    ((Grammar.ofLevels options.dialect options.maxDepth).wholeList tokens).Carried Token.unplaced
      (List.map Selector.unplaced)
      ((Grammar.ofLevels options.dialect options.maxDepth).wholeList
        (tokens.map Token.unplaced)) := by
  have hcarries := Grammar.carries_wholeList_ofLevels Token.faithful_unplaced
    Token.reaching_unplaced options.dialect options.maxDepth
  have heq : Selector.unplaced = Selector.mapTokens Token.unplaced (Arguments.mapDeep _) :=
    funext Selector.mapDeep_eq
  rw [heq]
  exact hcarries.carried tokens fun _ _ => trivial

theorem blamedIndex?_unplaced (options : Options) (tokens : List Token) :
    blamedIndex? options (tokens.map Token.unplaced) = blamedIndex? options tokens :=
  blamedIndex?_map Token.faithful_unplaced (carried_wholeList_unplaced options tokens)

theorem parseTokens_unplaced_eq_tooDeep_iff {limit : Nat} :
    parseTokens options (tokens.map Token.unplaced) = .error (.nestingTooDeep limit) ↔
      parseTokens options tokens = .error (.nestingTooDeep limit) := by
  rw [parseTokens_eq_tooDeep_iff, parseTokens_eq_tooDeep_iff]
  unfold Overflows
  rw [(carried_wholeList_unplaced options tokens).outcome]
  cases ((Grammar.ofLevels options.dialect options.maxDepth).wholeList tokens).outcome <;>
    simp [Outcome.carry]

theorem parseTokens_unplaced_eq_ok_iff {list : List Selector} :
    parseTokens options (tokens.map Token.unplaced) = .ok list ↔
      ∃ placed, parseTokens options tokens = .ok placed ∧ placed.map Selector.unplaced = list := by
  have hok {placed : List Selector} (h : parseTokens options tokens = .ok placed) :
      parseTokens options (tokens.map Token.unplaced) = .ok (placed.map Selector.unplaced) :=
    parseTokens_map_of_ok Token.faithful_unplaced (carried_wholeList_unplaced options tokens) h
  constructor
  · intro h
    rcases parseTokens_cases options tokens with ⟨placed, hplaced⟩ | hdeep | ⟨k, hk⟩
    · rw [hok hplaced] at h
      exact ⟨placed, hplaced, Except.ok.inj h⟩
    · rw [parseTokens_unplaced_eq_tooDeep_iff.2 hdeep] at h
      cases h
    · rw [← blamedIndex?_unplaced] at hk
      rw [parseTokens_of_blamedIndex? hk] at h
      cases h
  · rintro ⟨placed, hplaced, rfl⟩
    exact hok hplaced

/-- Tokens that agree but for their places form lists that agree but for theirs, or errors that
name the same token or the same limit. -/
theorem parse_ignores_places (h : tokens.map Token.unplaced = tokens'.map Token.unplaced) :
    (∃ list list', parseTokens options tokens = .ok list ∧ parseTokens options tokens' = .ok list' ∧
      list.map Selector.unplaced = list'.map Selector.unplaced) ∨
    (∃ found first last first' last',
      parseTokens options tokens = .error (.unexpected found first last) ∧
      parseTokens options tokens' = .error (.unexpected found first' last')) ∨
    (parseTokens options tokens = .error (.nestingTooDeep options.maxDepth) ∧
      parseTokens options tokens' = .error (.nestingTooDeep options.maxDepth)) := by
  rcases parseTokens_cases options tokens with ⟨list, hok⟩ | hdeep | ⟨k, hk⟩
  · have hunplaced := parseTokens_unplaced_eq_ok_iff.2 ⟨list, hok, rfl⟩
    rw [h] at hunplaced
    obtain ⟨list', hok', hlist⟩ := parseTokens_unplaced_eq_ok_iff.1 hunplaced
    exact .inl ⟨list, list', hok, hok', hlist.symm⟩
  · have hunplaced := parseTokens_unplaced_eq_tooDeep_iff.2 hdeep
    rw [h] at hunplaced
    exact .inr (.inr ⟨hdeep, parseTokens_unplaced_eq_tooDeep_iff.1 hunplaced⟩)
  · have hk' : blamedIndex? options tokens' = some k := by
      rw [← blamedIndex?_unplaced, ← h, blamedIndex?_unplaced, hk]
    have hdescribe : (Token.getOrEnd tokens' k).describe = (Token.getOrEnd tokens k).describe := by
      rw [← Token.describe_getOrEnd_unplaced, ← h, Token.describe_getOrEnd_unplaced]
    have herror' := parseTokens_of_blamedIndex? hk'
    rw [SelectorError.ofToken, hdescribe] at herror'
    exact .inr (.inl ⟨_, _, _, _, _, parseTokens_of_blamedIndex? hk, herror'⟩)

theorem parse_ignores_places_nested :
    ∃ list list',
      parseTokens {} [.atom .colon ⟨0, 1⟩,
        .function "is" [.atom (.ident "a") ⟨4, 5⟩] ⟨1, 6⟩] = .ok list ∧
      parseTokens {} [.atom .colon ⟨7, 7⟩,
        .function "is" [.atom (.ident "a") ⟨9, 2⟩] ⟨7, 7⟩] = .ok list' ∧
      list.map Selector.unplaced = list'.map Selector.unplaced := by
  let tokens : List Token :=
    [.atom .colon ⟨0, 1⟩, .function "is" [.atom (.ident "a") ⟨4, 5⟩] ⟨1, 6⟩]
  let tokens' : List Token :=
    [.atom .colon ⟨7, 7⟩, .function "is" [.atom (.ident "a") ⟨9, 2⟩] ⟨7, 7⟩]
  have hplaces : tokens.map Token.unplaced = tokens'.map Token.unplaced := rfl
  have hok : (parseTokens {} tokens).isOk = true := by with_unfolding_all rfl
  rcases parse_ignores_places hplaces with hlists | ⟨_, _, _, _, _, herror, -⟩ | ⟨hdeep, -⟩
  · exact hlists
  · rw [herror] at hok
    cases hok
  · rw [hdeep] at hok
    cases hok

end CssSelectors
