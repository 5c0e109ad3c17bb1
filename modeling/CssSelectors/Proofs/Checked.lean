import CssSelectors.Proofs.Blame
import CssSelectors.Proofs.Levels
import CssSelectors.Proofs.Overflow
import Mathlib.Algebra.Ring.Int.Defs
import Mathlib.Data.Nat.PSub

/-!
# Checked arithmetic

The same reading with every place checked where arithmetic could fail: a negation that leaves
the 64-bit numbers, tokens read as An+B that have none of its shapes, and a closing parenthesis
that is counted down from zero. A check that fails ends all reading. Reading a text passes all of
the checks, since a number that is negated is either written without a sign or made of digits
alone; and other tokens fail one only with a number without a sign that has no negative.
-/

namespace CssSelectors

/-! ## Parentheses -/

namespace Nesting

def closeParenChecked (span : Span) : Nesting → Option Nesting
  | ⟨[], finished⟩ => some (push (.atom .rightParen span) ⟨[], finished⟩)
  | ⟨f :: fs, finished⟩ =>
    if f.parens = 0 then some (push (finishFunction f span.stop) ⟨fs, finished⟩)
    else
      f.parens.ppred.map fun parens =>
        push (.atom .rightParen span) ⟨{ f with parens := parens } :: fs, finished⟩

def stepChecked (nesting : Nesting) (placed : PlacedLexeme) : Option Nesting :=
  match placed.lexeme with
  | .atom .rightParen => nesting.closeParenChecked placed.span
  | _ => some (nesting.step placed)

theorem closeParenChecked_eq (span : Span) (nesting : Nesting) :
    nesting.closeParenChecked span = some (nesting.closeParen span) := by
  unfold closeParenChecked
  split
  · rfl
  · next f fs finished =>
      rw [closeParen]
      split
      · rfl
      · next hparens =>
          rw [Nat.ppred_eq_pred (Nat.pos_of_ne_zero hparens)]
          rfl

theorem stepChecked_eq (nesting : Nesting) (placed : PlacedLexeme) :
    nesting.stepChecked placed = some (nesting.step placed) := by
  unfold stepChecked
  split
  · next heq => rw [closeParenChecked_eq, step, heq]
  · rfl

end Nesting

def tokenizeChecked (text : String) : Option (List Token) := do
  let stop := text.toList.length
  let nesting ← (placedLexemes 0 text.toList).foldlM Nesting.stepChecked .empty
  return nesting.tokens stop ++ [.atom .eof ⟨stop, stop⟩]

theorem tokenizeChecked_eq (text : String) : tokenizeChecked text = some (tokenize text) := by
  have hfold (lexemes : List PlacedLexeme) (nesting : Nesting) :
      lexemes.foldlM Nesting.stepChecked nesting = some (lexemes.foldl Nesting.step nesting) := by
    induction lexemes generalizing nesting with
    | nil => rfl
    | cons placed lexemes ih =>
        rw [List.foldlM_cons, Nesting.stepChecked_eq, Option.bind_eq_bind, Option.bind_some, ih]
        rfl
  rw [tokenizeChecked, hfold, tokenize, tokensFrom, Nat.zero_add]
  rfl

/-! ## Productions -/

variable {α β : Type}

/-- A way of reading in which a check may fail, which ends all reading. -/
def CheckedProduction (α : Type) : Type := List Token → Option (Reading α)

namespace CheckedProduction

def ofProduction (p : Production α) : CheckedProduction α := fun tokens =>
  some (p tokens)

protected def bind (p : CheckedProduction α) (f : α → CheckedProduction β) :
    CheckedProduction β := fun tokens =>
  (p tokens).bind fun reading =>
    match reading.outcome with
    | .matched a rest => (f a rest).map (·.after reading)
    | .noMatch stuck => some ⟨.noMatch stuck, reading.unread, reading.keptRaw⟩
    | .tooDeep => some ⟨.tooDeep, reading.unread, reading.keptRaw⟩

instance : Monad CheckedProduction where
  pure a := ofProduction (pure a)
  bind := CheckedProduction.bind

instance : MonadLift Production CheckedProduction where
  monadLift := ofProduction

def orElse (p q : CheckedProduction α) : CheckedProduction α := fun tokens =>
  (p tokens).bind fun reading =>
    match reading.outcome with
    | .noMatch _ => (q tokens).map (·.after reading)
    | _ => some reading

def firstOf : List (CheckedProduction α) → CheckedProduction α
  | [] => ofProduction Production.fail
  | p :: ps => orElse p (firstOf ps)

def optional (p : CheckedProduction α) : CheckedProduction (Option α) :=
  orElse (some <$> p) (pure none)

def iterate (step : CheckedProduction (Option α)) : CheckedProduction (List α) := fun tokens =>
  (step tokens).bind fun reading =>
    match reading.outcome with
    | .matched (some a) rest =>
      if rest.length < tokens.length then
        (iterate step rest).map fun others => (others.map (a :: ·)).after reading
      else some ⟨.matched [a] rest, reading.unread, reading.keptRaw⟩
    | .matched none rest => some ⟨.matched [] rest, reading.unread, reading.keptRaw⟩
    | .noMatch stuck => some ⟨.noMatch stuck, reading.unread, reading.keptRaw⟩
    | .tooDeep => some ⟨.tooDeep, reading.unread, reading.keptRaw⟩
termination_by tokens => tokens.length

def many (p : CheckedProduction α) : CheckedProduction (List α) :=
  iterate (optional p)

def nextItem (item : CheckedProduction α) : CheckedProduction (Option α) := do
  match ← Production.optional Grammar.comma with
  | none => return none
  | some _ => do
    Production.skip
    some <$> item

end CheckedProduction

/-! ## Selectors -/

/-- A grammar in which the arguments of functions are checked. -/
structure CheckedGrammar where
  dialect : Dialect
  arguments : Token → CheckedProduction Arguments

namespace CheckedGrammar

open CheckedProduction
open Production (token)

def functionCall (g : CheckedGrammar) : CheckedProduction PseudoClass := do
  let function ← token Token.isFunction
  let arguments ← g.arguments function
  return .function function arguments

def pseudoClass (g : CheckedGrammar) : CheckedProduction PseudoClass := do
  let _ ← token Token.isColon
  firstOf [ofProduction (.plain <$> token Token.isIdent), functionCall g]

def pseudoElement (g : CheckedGrammar) : CheckedProduction PseudoElement := do
  let _ ← token Token.isColon
  let element ← pseudoClass g
  let pseudoClasses ← many (pseudoClass g)
  return ⟨element, pseudoClasses⟩

def subclass (g : CheckedGrammar) : CheckedProduction Subclass :=
  firstOf [
    ofProduction (.id <$> token Token.isHash),
    ofProduction (.className <$> Grammar.classSelector),
    ofProduction (.attribute <$> Grammar.attributeSelector g.dialect),
    .pseudoClass <$> pseudoClass g]

def compound (g : CheckedGrammar) : CheckedProduction Compound := do
  let typeSelector ← Production.optional (Grammar.typeSelector g.dialect)
  let subclasses ← many (subclass g)
  let pseudoElements ← many (pseudoElement g)
  Grammar.ofParts typeSelector subclasses pseudoElements

def link (g : CheckedGrammar) : CheckedProduction (Combinator × Compound) := do
  let combinator ← Grammar.combinator g.dialect
  let compound ← compound g
  return (combinator, compound)

def complexSelector (g : CheckedGrammar) : CheckedProduction Complex := do
  let first ← compound g
  let links ← many (link g)
  return .ofLinks first links

def relativeSelector (g : CheckedGrammar) : CheckedProduction Selector := do
  let combinator ← Production.optional (Grammar.combinator g.dialect)
  let chain ← complexSelector g
  return .relative combinator chain

def selector (g : CheckedGrammar) : CheckedProduction Selector :=
  firstOf [.complex <$> complexSelector g, relativeSelector g]

def selectorList (g : CheckedGrammar) : CheckedProduction (List Selector) := do
  let first ← selector g
  let others ← iterate (nextItem (selector g))
  return first :: others

def wholeList (g : CheckedGrammar) : CheckedProduction (List Selector) := do
  Production.skip
  selectorList g

/-- What arguments that are not An+B say, from reading them as a selector list. -/
def settle (name : String) (tokens rest : List Token) (reading : Reading (List Selector)) :
    Reading Arguments :=
  let raw : Reading Arguments := ⟨.matched (.raw tokens) rest, none, reading.keptRaw ++ [name]⟩
  match reading.outcome with
  | .matched list leftover =>
    if Token.atEnd leftover then ⟨.matched (.selectors list) rest, none, reading.keptRaw⟩ else raw
  | .noMatch _ => raw
  | .tooDeep => ⟨.tooDeep, none, reading.keptRaw⟩

/-- Nonempty arguments of the function `name`. What a production of An+B has read has to have a
value. -/
def readNested (inner : CheckedGrammar) (name : String) (tokens : List Token) :
    CheckedProduction Arguments := fun rest =>
  match (Production.firstOf (Grammar.anPlusBProductions.map Grammar.toEnd) tokens).outcome with
  | .matched values _ =>
    (AnPlusB.ofTokensChecked values).map fun value => ⟨.matched (.anPlusB value) rest, none, []⟩
  | _ => (wholeList inner tokens).map (settle name tokens rest)

def readArguments (dialect : Dialect) (levels : Nat) (function : Token) :
    CheckedProduction Arguments :=
  match Grammar.argumentTokens function with
  | [] => pure .empty
  | t :: ts =>
    match levels with
    | 0 => fun _ => some ⟨.tooDeep, none, []⟩
    | levels + 1 =>
      readNested ⟨dialect, readArguments dialect levels⟩ (function.functionName?.getD "") (t :: ts)

def ofLevels (dialect : Dialect) (levels : Nat) : CheckedGrammar :=
  ⟨dialect, readArguments dialect levels⟩

section Levels

variable {dialect : Dialect} {levels : Nat} {function : Token}

theorem readArguments_of_nil (h : Grammar.argumentTokens function = []) :
    readArguments dialect levels function = pure .empty := by
  unfold readArguments
  rw [h]

theorem readArguments_zero (h : Grammar.argumentTokens function ≠ []) :
    readArguments dialect 0 function = fun _ => some ⟨.tooDeep, none, []⟩ := by
  obtain ⟨t, ts, hts⟩ := List.exists_cons_of_ne_nil h
  unfold readArguments
  rw [hts]

theorem readArguments_succ (h : Grammar.argumentTokens function ≠ []) :
    readArguments dialect (levels + 1) function =
      readNested (ofLevels dialect levels) (function.functionName?.getD "")
        (Grammar.argumentTokens function) := by
  obtain ⟨t, ts, hts⟩ := List.exists_cons_of_ne_nil h
  rw [readArguments, hts]
  rfl

end Levels

end CheckedGrammar

def Reading.result (options : Options) (tokens : List Token) (reading : Reading (List Selector)) :
    Except SelectorError (List Selector) :=
  match reading.outcome with
  | .matched list rest =>
    if Token.atEnd rest then .ok list
    else .error (.ofToken (Token.headOrEnd tokens (rest.dropWhile Token.isInsignificant)))
  | .noMatch stuck => .error (.ofToken (Token.culprit tokens stuck reading.unread))
  | .tooDeep => .error (.nestingTooDeep options.maxDepth)

/-- The selector list that tokens form, or nothing if a check fails. -/
def parseTokensChecked (options : Options) (tokens : List Token) :
    Option (Except SelectorError (List Selector)) :=
  ((CheckedGrammar.ofLevels options.dialect options.maxDepth).wholeList tokens).map
    (Reading.result options tokens)

/-- The selector list that a text forms, or nothing if a check fails. -/
def parseChecked (options : Options) (text : String) :
    Option (Except SelectorError (List Selector)) := do
  let tokens ← tokenizeChecked text
  parseTokensChecked options tokens

/-! ## Where checks pass -/

/-- Numbers without a sign can be negated at every depth. -/
def Token.AllNegatable (tokens : List Token) : Prop :=
  ∀ level, Token.Level tokens level → ∀ t ∈ level, t.Negatable

/-- The tokens all stand at one depth of the others. -/
def Token.Within (all tokens : List Token) : Prop :=
  ∃ level, Token.Level all level ∧ tokens ⊆ level

namespace Token.Within

variable {all tokens rest : List Token}

theorem refl (tokens : List Token) : Token.Within tokens tokens :=
  ⟨tokens, .outermost, List.Subset.refl tokens⟩

theorem of_subset (h : Token.Within all tokens) (hrest : rest ⊆ tokens) :
    Token.Within all rest := by
  obtain ⟨level, hlevel, htokens⟩ := h
  exact ⟨level, hlevel, List.Subset.trans hrest htokens⟩

theorem negatable (h : Token.Within all tokens) (hall : Token.AllNegatable all) :
    ∀ t ∈ tokens, t.Negatable := by
  obtain ⟨level, hlevel, htokens⟩ := h
  exact fun t ht => hall level hlevel t (htokens ht)

theorem argumentTokens {function : Token} (h : Token.Within all tokens)
    (hfunction : function ∈ tokens) : Token.Within all (Grammar.argumentTokens function) := by
  obtain ⟨level, hlevel, htokens⟩ := h
  cases function with
  | atom a span => exact ⟨level, hlevel, List.nil_subset level⟩
  | function name arguments span =>
      exact ⟨arguments, .arguments hlevel (htokens hfunction), Token.trim_subset arguments⟩

end Token.Within

open Production

theorem checks_bind {passes : Prop} {c : CheckedProduction α} {p : Production α}
    {f' : α → CheckedProduction β} {f : α → Production β} {tokens : List Token}
    (h : Checks passes (c tokens) (p tokens))
    (hf : ∀ a rest, p.Matches tokens a rest → Checks passes (f' a rest) (f a rest)) :
    Checks passes ((c >>= f') tokens) ((p >>= f) tokens) := by
  refine h.bind ?_
  cases houtcome : (p tokens).outcome with
  | matched a rest =>
      rw [bind_eq_of_matched houtcome]
      exact (hf a rest houtcome).map _
  | noMatch stuck =>
      rw [bind_eq_of_noMatch houtcome]
      exact .of_eq_some rfl
  | tooDeep =>
      rw [bind_eq_of_tooDeep houtcome]
      exact .of_eq_some rfl

/-- On tokens within the others, the checked production reads what the other one does, unless a
number among them has no negative. -/
structure Shadows (all : List Token) (c : CheckedProduction α) (p : Production α) : Prop where
  advances : p.Advances
  checks : ∀ tokens, Token.Within all tokens →
    Checks (Token.AllNegatable all) (c tokens) (p tokens)

namespace Shadows

variable {all : List Token} {c c' : CheckedProduction α} {p q : Production α}

theorem ofProduction (hp : p.Advances) : Shadows all (.ofProduction p) p :=
  ⟨hp, fun _ _ => .of_eq_some rfl⟩

theorem pure (a : α) : Shadows all (pure a) (pure a) :=
  .ofProduction (advances_pure a)

theorem bind {f : α → Production β} {f' : α → CheckedProduction β} (hp : Shadows all c p)
    (hf : ∀ a, Shadows all (f' a) (f a)) : Shadows all (c >>= f') (p >>= f) := by
  refine ⟨hp.advances.bind fun a => (hf a).advances, fun tokens htokens => ?_⟩
  refine checks_bind (hp.checks tokens htokens) fun a rest h => (hf a).checks rest ?_
  exact htokens.of_subset (hp.advances.passes_of_matches h).suffix.subset

theorem map (hp : Shadows all c p) (f : α → β) : Shadows all (f <$> c) (f <$> p) := by
  rw [← bind_pure_eq_map]
  exact hp.bind fun a => .pure (f a)

theorem orElse (hp : Shadows all c p) (hq : Shadows all c' q) :
    Shadows all (c.orElse c') (orElse p q) := by
  refine ⟨hp.advances.orElse hq.advances, fun tokens htokens =>
    (hp.checks tokens htokens).bind ?_⟩
  cases houtcome : (p tokens).outcome with
  | noMatch stuck =>
      rw [orElse_eq_of_noMatch houtcome]
      exact (hq.checks tokens htokens).map _
  | matched a rest =>
      rw [orElse_eq_of_not_refuses (by simp [Refuses, houtcome])]
      exact .of_eq_some rfl
  | tooDeep =>
      rw [orElse_eq_of_not_refuses (by simp [Refuses, houtcome])]
      exact .of_eq_some rfl

theorem firstOf {cs : List (CheckedProduction α)} {ps : List (Production α)}
    (h : List.Forall₂ (Shadows all) cs ps) : Shadows all (.firstOf cs) (firstOf ps) := by
  induction h with
  | nil => exact .ofProduction advances_fail
  | cons hp _ ih => exact hp.orElse ih

theorem optional (hp : Shadows all c p) : Shadows all c.optional (optional p) :=
  (hp.map some).orElse (.pure none)

/-- The repetition is followed as far as it goes, along the number of tokens that are left. -/
theorem iterate {step : Production (Option α)} {step' : CheckedProduction (Option α)}
    (h : Shadows all step' step) : Shadows all step'.iterate (iterate step) := by
  refine ⟨h.advances.iterate, fun tokens htokens => ?_⟩
  induction hn : tokens.length using Nat.strongRecOn generalizing tokens with
  | ind n ih =>
      rw [CheckedProduction.iterate]
      refine (h.checks tokens htokens).bind ?_
      cases houtcome : (step tokens).outcome with
      | tooDeep =>
          rw [iterate_eq_of_tooDeep houtcome]
          exact .of_eq_some rfl
      | noMatch stuck =>
          rw [iterate_eq_of_noMatch houtcome]
          exact .of_eq_some rfl
      | matched item rest =>
          cases item with
          | none =>
              rw [iterate_eq_of_none houtcome]
              exact .of_eq_some rfl
          | some a =>
              by_cases hlt : rest.length < tokens.length
              · have hrest : Token.Within all rest :=
                  htokens.of_subset (h.advances.passes_of_matches houtcome).suffix.subset
                rw [iterate_eq_of_lt houtcome hlt]
                dsimp only
                rw [if_pos hlt]
                exact (ih rest.length (hn ▸ hlt) rest hrest rfl).map _
              · rw [iterate_eq_of_not_lt houtcome hlt]
                exact .of_eq_some (if_neg hlt)

theorem many (hp : Shadows all c p) : Shadows all c.many (many p) :=
  hp.optional.iterate

end Shadows

/-! ## The checked grammar -/

namespace CheckedGrammar

variable {all : List Token} {g' : CheckedGrammar} {g : Grammar}

/-- Two grammars of one dialect, of which the checked one shadows the other in the arguments of
functions. -/
structure ShadowsArguments (all : List Token) (g' : CheckedGrammar) (g : Grammar) : Prop where
  dialect : g'.dialect = g.dialect
  heeds : ∀ function, (g.arguments function).Heeds False
  arguments : ∀ tokens function rest, Token.Within all tokens → function ∈ tokens →
    Checks (Token.AllNegatable all) (g'.arguments function rest) (g.arguments function rest)

namespace ShadowsArguments

theorem token {accept : Token → Bool} (haccept : ∀ span, accept (.atom .eof span) = false) :
    Shadows all (.ofProduction (token accept)) (token accept) :=
  .ofProduction (advances_token haccept)

variable (h : ShadowsArguments all g' g)
include h

theorem functionCall : Shadows all (functionCall g') (Grammar.functionCall g) := by
  refine ⟨?_, fun tokens htokens => ?_⟩
  · exact (advances_token fun _ => rfl).bind fun function =>
      (h.heeds function).advances.bind fun _ => advances_pure _
  · refine checks_bind (.of_eq_some rfl) fun function rest hmatches => ?_
    obtain ⟨rfl, -⟩ := matches_token_iff.1 hmatches
    exact checks_bind (h.arguments _ function rest htokens List.mem_cons_self) fun _ _ _ =>
      .of_eq_some rfl

theorem pseudoClass : Shadows all (pseudoClass g') (Grammar.pseudoClass g) := by
  have hplain : (PseudoClass.plain <$> Production.token Token.isIdent).Advances :=
    (advances_token fun _ => rfl).map _
  rw [Grammar.pseudoClass_eq]
  exact (token fun _ => rfl).bind fun _ =>
    .firstOf (.cons (.ofProduction hplain) (.cons h.functionCall .nil))

theorem pseudoElement : Shadows all (pseudoElement g') (Grammar.pseudoElement g) := by
  refine (token fun _ => rfl).bind fun _ => h.pseudoClass.bind fun _ => ?_
  exact h.pseudoClass.many.bind fun _ => .pure _

theorem subclass : Shadows all (subclass g') (Grammar.subclass g) := by
  have hid : (Subclass.id <$> Production.token Token.isHash).Advances :=
    (advances_token fun _ => rfl).map _
  have hname : Grammar.classSelector.Advances :=
    (advances_token fun _ => rfl).bind fun _ => advances_token fun _ => rfl
  unfold CheckedGrammar.subclass
  rw [h.dialect]
  exact .firstOf <| .cons (.ofProduction hid) <| .cons (.ofProduction (hname.map _)) <|
    .cons (.ofProduction (Grammar.heeds_attributeSelector.advances.map _)) <|
      .cons (h.pseudoClass.map _) .nil

theorem compound : Shadows all (compound g') (Grammar.compound g) := by
  rw [Grammar.compound_eq]
  unfold CheckedGrammar.compound
  rw [h.dialect]
  refine .bind (.ofProduction Grammar.heeds_typeSelector.optional.advances) fun _ => ?_
  refine h.subclass.many.bind fun _ => h.pseudoElement.many.bind fun _ => .ofProduction ?_
  unfold Grammar.ofParts
  split
  · exact advances_pure _
  · exact advances_fail

theorem complexSelector : Shadows all (complexSelector g') (Grammar.complexSelector g) := by
  have hlink : Shadows all (link g') (Grammar.link g) := by
    unfold link
    rw [h.dialect]
    exact .bind (.ofProduction Grammar.heeds_combinator.advances) fun _ =>
      h.compound.bind fun _ => .pure _
  exact h.compound.bind fun _ => hlink.many.bind fun _ => .pure _

theorem selector : Shadows all (selector g') (Grammar.selector g) := by
  have hrelative : Shadows all (relativeSelector g') (Grammar.relativeSelector g) := by
    unfold relativeSelector
    rw [h.dialect]
    exact .bind (.ofProduction Grammar.heeds_combinator.optional.advances) fun _ =>
      h.complexSelector.bind fun _ => .pure _
  exact .firstOf (.cons (h.complexSelector.map _) (.cons hrelative .nil))

theorem wholeList : Shadows all (wholeList g') (Grammar.wholeList g) := by
  have hnext : Shadows all (.nextItem (CheckedGrammar.selector g'))
      (Grammar.nextItem (Grammar.selector g)) := by
    refine .bind (.ofProduction Grammar.heeds_comma.optional.advances) fun item => ?_
    cases item with
    | none => exact .pure _
    | some _ => exact .bind (.ofProduction heeds_skip.advances) fun _ => h.selector.map _
  refine .bind (.ofProduction heeds_skip.advances) fun _ => ?_
  rw [Grammar.selectorList_eq]
  exact h.selector.bind fun _ => hnext.iterate.bind fun _ => .pure _

end ShadowsArguments

/-! ## Arguments -/

variable {tokens : List Token}

/-- What is read as An+B has one of its shapes, and a number in it may have no negative. -/
theorem exists_checks_ofTokens {values rest : List Token} (htokens : Token.Within all tokens)
    (h : (firstOf (Grammar.anPlusBProductions.map Grammar.toEnd)).Matches tokens values rest) :
    ∃ value, Grammar.anPlusB.Matches tokens value rest ∧
      Checks (Token.AllNegatable all) (AnPlusB.ofTokensChecked values) value := by
  obtain ⟨p, hp, middle, hvalues, value, hvalue⟩ := Grammar.exists_ofTokens?_of_matches h
  have hsubset : values ⊆ tokens := by
    have hgathers := Grammar.gathers_anPlusBProductions p hp tokens values middle hvalues
    intro t ht
    have hmem : t ∈ Token.significant tokens := by
      rw [hgathers]
      exact List.mem_append_left _ ht
    exact (List.takeWhile_prefix _).subset (List.mem_of_mem_filter hmem)
  refine ⟨value, matches_bind_iff.2 ⟨_, rest, h, by simp [hvalue]⟩, ?_⟩
  exact (AnPlusB.checks_ofTokens hvalue).mono (htokens.of_subset hsubset).negatable

theorem readNested_eq_settle {inner : Grammar} {name : String}
    (h : ∀ value leftover, ¬ Grammar.anPlusB.Matches tokens value leftover) (rest : List Token) :
    Grammar.readNested inner name tokens rest =
      settle name tokens rest (Grammar.wholeList inner tokens) := by
  unfold Grammar.readNested
  split
  · next value leftover heq => exact absurd heq (h value leftover)
  · rfl

theorem ShadowsArguments.readNested (h : ShadowsArguments all g' g)
    (htokens : Token.Within all tokens) (name : String) (rest : List Token) :
    Checks (Token.AllNegatable all) (readNested g' name tokens rest)
      (Grammar.readNested g name tokens rest) := by
  unfold CheckedGrammar.readNested
  split
  · next values leftover houtcome =>
      obtain ⟨value, hmatches, hchecks⟩ := exists_checks_ofTokens htokens houtcome
      unfold Matches at hmatches
      simp only [Grammar.readNested, hmatches]
      exact hchecks.map _
  · next hno =>
      have hnone : ∀ value leftover, ¬ Grammar.anPlusB.Matches tokens value leftover := by
        intro value leftover hmatches
        obtain ⟨values, middle, hvalues, -⟩ := matches_bind_iff.1 hmatches
        exact hno values middle hvalues
      rw [readNested_eq_settle hnone]
      exact (h.wholeList.checks tokens htokens).map _

theorem shadowsArguments_ofLevels (all : List Token) (dialect : Dialect) (levels : Nat) :
    ShadowsArguments all (ofLevels dialect levels) (Grammar.ofLevels dialect levels) := by
  refine ⟨rfl, fun function => Grammar.heeds_readArguments levels function, ?_⟩
  induction levels with
  | zero =>
      intro tokens function rest _ _
      by_cases hnil : Grammar.argumentTokens function = []
      · simp only [ofLevels, Grammar.ofLevels, readArguments_of_nil hnil,
          Grammar.readArguments_of_nil hnil]
        exact .of_eq_some rfl
      · simp only [ofLevels, Grammar.ofLevels, readArguments_zero hnil,
          Grammar.readArguments_zero hnil]
        exact .of_eq_some rfl
  | succ levels ih =>
      intro tokens function rest htokens hfunction
      by_cases hnil : Grammar.argumentTokens function = []
      · simp only [ofLevels, Grammar.ofLevels, readArguments_of_nil hnil,
          Grammar.readArguments_of_nil hnil]
        exact .of_eq_some rfl
      · have hinner : ShadowsArguments all (ofLevels dialect levels)
            (Grammar.ofLevels dialect levels) :=
          ⟨rfl, fun function => Grammar.heeds_readArguments levels function, ih⟩
        simp only [ofLevels, Grammar.ofLevels, readArguments_succ hnil,
          Grammar.readArguments_succ hnil]
        exact hinner.readNested (htokens.argumentTokens hfunction) _ rest

end CheckedGrammar

/-- Tokens are read as they are without checks, or they hold a number without a sign that has no
negative. -/
theorem checks_parseTokens (options : Options) {all tokens : List Token}
    (h : Token.Within all tokens) :
    Checks (Token.AllNegatable all) (parseTokensChecked options tokens)
      (parseTokens options tokens) :=
  ((CheckedGrammar.shadowsArguments_ofLevels all _ _).wholeList.checks tokens h).map _

theorem allNegatable_tokenize (text : String) : Token.AllNegatable (tokenize text) :=
  fun _ hlevel t ht => (hlevel.numberWritten t ht).negatable

/-- Every check of the arithmetic passes on every text. A number without a sign is not negative,
the digits of a name have 64 bits, and so no tokens of the text make a negation fail; reading the
text checked gives what reading it gives. -/
theorem parseChecked_eq_some (text : String) :
    (∀ level t numeric i, Token.Level (tokenize text) level → t ∈ level →
      t.numeric? = some numeric → numeric.signed = false → numeric.intValue = some i → 0 ≤ i) ∧
    (∀ name a digits, AnPlusB.dashDigits? name = some (a, digits) →
      0 ≤ digits ∧ digits ≤ 2 ^ 63 - 1) ∧
    (∀ cut, (∀ t ∈ cut, ∃ level, Token.Level (tokenize text) level ∧ t ∈ level) →
      AnPlusB.deriveChecked cut = some (AnPlusB.derive cut)) ∧
    ∀ options, parseChecked options text = some (parse options text) := by
  refine ⟨?_, ?_, ?_, ?_⟩
  · intro level t numeric i hlevel ht hnumeric hsigned hi
    exact (hlevel.numberWritten t ht numeric hnumeric i hi).2 hsigned
  · intro name a digits h
    obtain ⟨hnonneg, hfits⟩ := AnPlusB.dashDigits?_bounds h
    have hlt := (Numeral.fitsWord_iff.1 hfits).2
    omega
  · intro cut hcut
    refine (AnPlusB.checks_derive cut).eq_some fun t ht => ?_
    obtain ⟨level, hlevel, hmem⟩ := hcut t ht
    exact allNegatable_tokenize text level hlevel t hmem
  · intro options
    rw [parseChecked, tokenizeChecked_eq]
    exact (checks_parseTokens options (.refl _)).eq_some (allNegatable_tokenize text)

/-- The offset of `n- 7` between parentheses is negated. -/
theorem parseChecked_eq_some_offset :
    AnPlusB.dashDigits? "n-7" = some (1, 7) ∧ (0 : Int) ≤ 7 ∧
    AnPlusB.deriveChecked [.atom (.ident "n-") ⟨2, 4⟩, .atom (.number (.ofInt 7 false)) ⟨5, 6⟩] =
      some (some (1, -7)) ∧
    parseChecked {} "f(n- 7" = some (parse {} "f(n- 7") := by
  let step : Token := .atom (.ident "n-") ⟨2, 4⟩
  let offset : Token := .atom (.number (.ofInt 7 false)) ⟨5, 6⟩
  have htokens : tokenize "f(n- 7" =
      [.function "f" [step, .atom .whitespace ⟨4, 5⟩, offset] ⟨0, 6⟩, .atom .eof ⟨6, 6⟩] := by
    with_unfolding_all rfl
  have hlevel : Token.Level (tokenize "f(n- 7") [step, .atom .whitespace ⟨4, 5⟩, offset] := by
    rw [htokens]
    exact .arguments .outermost List.mem_cons_self
  obtain ⟨hnonneg, hdigits, hderive, hparse⟩ := parseChecked_eq_some "f(n- 7"
  have hoffset := hnonneg _ offset (.ofInt 7 false) 7 hlevel (by simp) rfl rfl rfl
  refine ⟨by decide, hoffset, ?_, hparse {}⟩
  have hcut : ∀ t ∈ [step, offset], ∃ level, Token.Level (tokenize "f(n- 7") level ∧ t ∈ level :=
    fun t ht => ⟨_, hlevel, (show [step, offset] ⊆ _ by simp) ht⟩
  rw [hderive [step, offset] hcut]
  decide

end CssSelectors
