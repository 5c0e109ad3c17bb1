import CssSelectors.Proofs.Reading.List

/-!
# Relations between grammars

A relation between productions that all ways of combining them preserve holds between the
selectors of two grammars, as soon as it holds between their functions. What sets one such
relation apart from another is left to the relation; the productions are gone through here
alone.
-/

namespace CssSelectors

/-- Accepted tokens neither end a selector, as a comma and the end of the text do, nor begin a
pseudo-class. -/
def Token.Inner (accept : Token → Bool) : Prop :=
  ∀ span, accept (.atom .comma span) = false ∧ accept (.atom .eof span) = false ∧
    accept (.atom .colon span) = false

namespace Production

/-- A relation that the ways of combining productions preserve. Commas and colons are left to the
relation. -/
structure Congruence (R : ∀ ⦃α : Type⦄, Production α → Production α → Prop) : Prop where
  pure : ∀ {α : Type} (a : α), R (pure a) (pure a)
  fail : ∀ {α : Type}, R (fail : Production α) fail
  token : ∀ {accept : Token → Bool}, Token.Inner accept → R (token accept) (token accept)
  insignificant : R insignificant insignificant
  bind : ∀ {α β : Type} {p p' : Production α} {f f' : α → Production β},
    R p p' → (∀ a, R (f a) (f' a)) → R (p >>= f) (p' >>= f')
  orElse : ∀ {α : Type} {p p' q q' : Production α},
    R p p' → R q q' → R (orElse p q) (orElse p' q')
  iterate : ∀ {α : Type} {step step' : Production (Option α)},
    R step step' → R (iterate step) (iterate step')

namespace Congruence

open Grammar

variable {R : ∀ ⦃α : Type⦄, Production α → Production α → Prop} (h : Congruence R)
  {α β : Type} {p p' : Production α} {dialect : Dialect} {g g' : Grammar}
include h

/-! ## Combined productions -/

theorem map (hp : R p p') (f : α → β) : R (f <$> p) (f <$> p') := by
  rw [← bind_pure_eq_map, ← bind_pure_eq_map]
  exact h.bind hp fun _ => h.pure _

theorem firstOf {ps ps' : List (Production α)} (hps : List.Forall₂ (@R α) ps ps') :
    R (firstOf ps) (firstOf ps') := by
  induction hps with
  | nil => exact h.fail
  | cons hp _ ih => exact h.orElse hp ih

theorem optional (hp : R p p') : R (optional p) (optional p') :=
  h.orElse (h.map hp some) (h.pure none)

theorem many (hp : R p p') : R (many p) (many p') :=
  h.iterate (h.optional hp)

theorem skip : R skip skip :=
  h.bind h.insignificant fun _ => h.pure _

theorem spelled (symbol : List Char) : R (spelled symbol) (spelled symbol) := by
  induction symbol with
  | nil => exact h.pure []
  | cons c cs ih =>
      refine h.bind (h.token fun _ => ⟨rfl, rfl, rfl⟩) fun _ => ?_
      exact h.bind ih fun _ => h.pure _

/-! ## Names and attributes -/

theorem nsPrefix : R nsPrefix nsPrefix := by
  have hvalue : R nsValue nsValue :=
    h.firstOf <| .cons (h.token fun _ => ⟨rfl, rfl, rfl⟩) <|
      .cons (h.token fun _ => ⟨rfl, rfl, rfl⟩) .nil
  refine h.bind (h.optional hvalue) fun _ => ?_
  exact h.bind (h.token fun _ => ⟨rfl, rfl, rfl⟩) fun _ => h.pure _

theorem qualifiedName : R qualifiedName qualifiedName := by
  have hplain : R plainName plainName := h.bind (h.token fun _ => ⟨rfl, rfl, rfl⟩) fun _ => h.pure _
  have hprefixed : R prefixedName prefixedName :=
    h.bind h.nsPrefix fun _ => h.bind (h.token fun _ => ⟨rfl, rfl, rfl⟩) fun _ => h.pure _
  exact h.firstOf (.cons hprefixed (.cons hplain .nil))

theorem typeSelector : R (typeSelector dialect) (typeSelector dialect) := by
  have huniversal : R universal universal := by
    refine h.bind (h.optional h.nsPrefix) fun _ => ?_
    exact h.bind (h.token fun _ => ⟨rfl, rfl, rfl⟩) fun _ => h.pure _
  have hstandard : R standardType standardType :=
    h.firstOf (.cons huniversal (.cons (h.map h.qualifiedName _) .nil))
  cases dialect with
  | standard => exact hstandard
  | extended =>
      exact h.firstOf <| .cons (h.map (h.token fun _ => ⟨rfl, rfl, rfl⟩) _) <|
        .cons (h.map (h.token fun _ => ⟨rfl, rfl, rfl⟩) _) <| .cons hstandard .nil

theorem attributeMatcher : R (attributeMatcher dialect) (attributeMatcher dialect) := by
  have hmatcher (kind : MatcherKind) : R (matcher kind) (matcher kind) :=
    h.bind (h.spelled _) fun _ => h.pure _
  have hstandard : R standardMatcher standardMatcher := by
    rw [standardMatcher_eq]
    exact h.firstOf (List.forall₂_map_left_iff.2 <| List.forall₂_map_right_iff.2 <|
      List.forall₂_same.2 fun kind _ => hmatcher kind)
  cases dialect with
  | standard => exact hstandard
  | extended => exact h.firstOf (.cons (hmatcher _) (.cons hstandard .nil))

theorem attributeTail : R (attributeTail dialect) (attributeTail dialect) := by
  have hvalue : R attributeValue attributeValue :=
    h.firstOf <| .cons (h.token fun _ => ⟨rfl, rfl, rfl⟩) <|
      .cons (h.token fun _ => ⟨rfl, rfl, rfl⟩) <|
      .cons (h.token fun _ => ⟨rfl, rfl, rfl⟩) .nil
  have hword (text : String) : R (word text) (word text) := h.token fun _ => ⟨rfl, rfl, rfl⟩
  have hmodifier : R attributeModifier attributeModifier :=
    h.firstOf <| .cons (h.bind (hword _) fun _ => h.pure _) <|
      .cons (h.bind (hword _) fun _ => h.pure _) .nil
  have htest : R (attributeTest dialect) (attributeTest dialect) := by
    rw [attributeTest_eq]
    refine h.bind h.attributeMatcher fun _ => h.bind h.skip fun _ => h.bind hvalue fun _ => ?_
    refine h.bind h.skip fun _ => h.bind (h.optional hmodifier) fun _ => h.bind h.skip fun _ => ?_
    exact h.bind (h.token fun _ => ⟨rfl, rfl, rfl⟩) fun _ => h.pure _
  refine h.bind (h.optional (h.token fun _ => ⟨rfl, rfl, rfl⟩)) fun bracket => ?_
  cases bracket with
  | some _ => exact h.pure none
  | none => exact h.map htest some

theorem attributeSelector : R (attributeSelector dialect) (attributeSelector dialect) := by
  have hstandard : R (standardAttribute dialect) (standardAttribute dialect) := by
    refine h.bind (h.token fun _ => ⟨rfl, rfl, rfl⟩) fun _ => h.bind h.skip fun _ => ?_
    refine h.bind h.qualifiedName fun _ => h.bind h.skip fun _ => ?_
    exact h.bind h.attributeTail fun _ => h.pure _
  have hbracketed {accept : Token → Bool} (haccept : Token.Inner accept) :
      R (bracketedSubject accept) (bracketedSubject accept) := by
    refine h.bind (h.token fun _ => ⟨rfl, rfl, rfl⟩) fun _ => h.bind h.skip fun _ => ?_
    exact h.bind (h.token haccept) fun _ => h.bind h.skip fun _ => h.pure _
  have hsubject (accept : Token → Bool) (name : Token → AttributeName)
      (haccept : Token.Inner accept) :
      R (subjectSelector accept name) (subjectSelector accept name) :=
    h.bind (hbracketed haccept) fun _ => h.bind h.attributeTail fun _ => h.pure _
  have hposition : R positionSelector positionSelector :=
    h.bind (hbracketed fun _ => ⟨rfl, rfl, rfl⟩) fun _ =>
      h.bind (h.token fun _ => ⟨rfl, rfl, rfl⟩) fun _ => h.pure _
  cases dialect with
  | standard => exact hstandard
  | extended =>
      rw [attributeSelector_extended_eq]
      exact h.firstOf <| .cons hstandard <| .cons (hsubject _ _ fun _ => ⟨rfl, rfl, rfl⟩) <|
        .cons hposition <| .cons (hsubject _ _ fun _ => ⟨rfl, rfl, rfl⟩) .nil

/-! ## Chains -/

theorem combinator : R (combinator dialect) (combinator dialect) := by
  have hoperator (kind : CombinatorKind) (symbol : List Char) :
      R (operator kind symbol) (operator kind symbol) :=
    h.bind h.skip fun _ => h.bind (h.spelled symbol) fun _ => h.bind h.skip fun _ => h.pure _
  have hdescendant : R descendantCombinator descendantCombinator := by
    refine h.bind h.insignificant fun blank => ?_
    split
    · exact h.pure _
    · exact h.fail
  have hstandard : R standardCombinator standardCombinator :=
    h.firstOf <| .cons (hoperator _ _) <| .cons (hoperator _ _) <| .cons (hoperator _ _) <|
      .cons (hoperator _ _) <| .cons hdescendant .nil
  cases dialect with
  | standard => exact hstandard
  | extended =>
      exact h.firstOf (.cons (hoperator _ _) (.cons (hoperator _ _) (.cons hstandard .nil)))

section Grammars

theorem pseudoClass (hcolon : R (Production.token Token.isColon) (Production.token Token.isColon))
    (hcall : R (functionCall g) (functionCall g')) : R (pseudoClass g) (pseudoClass g') := by
  rw [pseudoClass_eq, pseudoClass_eq]
  refine h.bind hcolon fun _ => ?_
  exact h.firstOf (.cons (h.map (h.token fun _ => ⟨rfl, rfl, rfl⟩) _) (.cons hcall .nil))

variable (hclass : R (Grammar.pseudoClass g) (Grammar.pseudoClass g'))

include hclass in
theorem pseudoElement
    (hcolon : R (Production.token Token.isColon) (Production.token Token.isColon)) :
    R (pseudoElement g) (pseudoElement g') := by
  refine h.bind hcolon fun _ => h.bind hclass fun _ => ?_
  exact h.bind (h.many hclass) fun _ => h.pure _

variable (hdialect : g.dialect = g'.dialect)
  (helement : R (Grammar.pseudoElement g) (Grammar.pseudoElement g'))

include hdialect hclass

theorem subclass : R (subclass g) (subclass g') := by
  have hname : R classSelector classSelector :=
    h.bind (h.token fun _ => ⟨rfl, rfl, rfl⟩) fun _ => h.token fun _ => ⟨rfl, rfl, rfl⟩
  unfold Grammar.subclass
  rw [← hdialect]
  exact h.firstOf <| .cons (h.map (h.token fun _ => ⟨rfl, rfl, rfl⟩) _) <| .cons (h.map hname _) <|
    .cons (h.map h.attributeSelector _) <| .cons (h.map hclass _) .nil

include helement

theorem compound : R (compound g) (compound g') := by
  rw [compound_eq, compound_eq, ← hdialect]
  refine h.bind (h.optional h.typeSelector) fun _ => ?_
  refine h.bind (h.many (h.subclass hclass hdialect)) fun _ => ?_
  refine h.bind (h.many helement) fun _ => ?_
  unfold ofParts
  split
  · exact h.pure _
  · exact h.fail

theorem complexSelector : R (complexSelector g) (complexSelector g') := by
  have hcombinator : R (Grammar.combinator g.dialect) (Grammar.combinator g'.dialect) :=
    hdialect ▸ h.combinator
  have hcompound := h.compound hclass hdialect helement
  have hlink : R (link g) (link g') :=
    h.bind hcombinator fun _ => h.bind hcompound fun _ => h.pure _
  exact h.bind hcompound fun _ => h.bind (h.many hlink) fun _ => h.pure _

theorem selector : R (selector g) (selector g') := by
  have hcombinator : R (Grammar.combinator g.dialect) (Grammar.combinator g'.dialect) :=
    hdialect ▸ h.combinator
  have hchain := h.complexSelector hclass hdialect helement
  have hrelative : R (relativeSelector g) (relativeSelector g') :=
    h.bind (h.optional hcombinator) fun _ => h.bind hchain fun _ => h.pure _
  exact h.firstOf (.cons (h.map hchain _) (.cons hrelative .nil))

theorem wholeList (hcomma : R comma comma) : R (wholeList g) (wholeList g') := by
  have hselector := h.selector hclass hdialect helement
  have hnext : R (nextItem (Grammar.selector g)) (nextItem (Grammar.selector g')) := by
    refine h.bind (h.optional hcomma) fun item => ?_
    cases item with
    | none => exact h.pure _
    | some _ => exact h.bind h.skip fun _ => h.map hselector _
  refine h.bind h.skip fun _ => ?_
  rw [selectorList_eq, selectorList_eq]
  exact h.bind hselector fun _ => h.bind (h.iterate hnext) fun _ => h.pure _

end Grammars

end Congruence

end Production

end CssSelectors
