import CssSelectors.Proofs.Spelling
import CssSelectors.Selector.Basic

/-!
# Writing selectors

The pieces of every part of a selector, from left to right. A layout says what stands
at the places where whitespace and comments may. One writer then serves for the
grammar itself (gaps everywhere), for the tree alone (nothing there) and for a
rendering with a space on both sides of every combinator that delimiters spell.
-/

namespace CssSelectors

/-- What stands where whitespace and comments may. -/
structure Layout where
  /-- Between the parts of an attribute selector. -/
  bracket : List Piece
  /-- On both sides of a combinator that delimiters spell. -/
  operator : List Piece
  /-- Before a column combinator whose first bar would make a namespace of the lone
  asterisk before it. -/
  column : List Piece
  /-- On both sides of a comma. -/
  comma : List Piece
  /-- Before the first selector and after the last. -/
  outer : List Piece

namespace Layout

def free : Layout :=
  { bracket := [.gap false]
    operator := [.gap false]
    column := [.gap true]
    comma := [.gap false]
    outer := [.gap false] }

@[simp] theorem free_bracket : free.bracket = [.gap false] := rfl

@[simp] theorem free_operator : free.operator = [.gap false] := rfl

@[simp] theorem free_comma : free.comma = [.gap false] := rfl

@[simp] theorem free_outer : free.outer = [.gap false] := rfl

def bare : Layout :=
  { bracket := [], operator := [], column := [], comma := [], outer := [] }

/-- One whitespace token on each side of a combinator, and none elsewhere. -/
def spaced : Layout :=
  { bracket := []
    operator := [.mark .whitespace]
    column := [.mark .whitespace]
    comma := []
    outer := [] }

end Layout

def NsPrefix.pieces (ns : NsPrefix) : List Piece :=
  ns.value.toList.map .stored ++ [.mark (.delim '|')]

def QualifiedName.pieces (name : QualifiedName) : List Piece :=
  name.ns.toList.flatMap NsPrefix.pieces ++ [.stored name.name]

def TypeSelector.pieces : TypeSelector → List Piece
  | .name qualified => qualified.pieces
  | .universal ns asterisk => ns.toList.flatMap NsPrefix.pieces ++ [.stored asterisk]
  | .atKeyword token => [.stored token]
  | .xpath function => [.stored function]

def AttributeName.pieces : AttributeName → List Piece
  | .qualified name => name.pieces
  | .atKeyword token => [.stored token]
  | .position token => [.stored token]
  | .xpath function => [.stored function]

def AttributeTest.pieces (layout : Layout) (test : AttributeTest) : List Piece :=
  test.matcher.tokens.map .stored ++ (layout.bracket ++ ([.stored test.value] ++
    (layout.bracket ++ test.modifier.toList.flatMap fun modifier =>
      .stored modifier.token :: layout.bracket)))

def AttributeSelector.pieces (layout : Layout) (selector : AttributeSelector) : List Piece :=
  [.mark .leftBracket] ++ (layout.bracket ++ (selector.name.pieces ++ (layout.bracket ++
    (selector.test.toList.flatMap (AttributeTest.pieces layout) ++ [.mark .rightBracket]))))

/-- The arguments are part of the token of a function. -/
def PseudoClass.pieces : PseudoClass → List Piece
  | .plain name => [.mark .colon, .stored name]
  | .function token _ => [.mark .colon, .stored token]

def PseudoElement.pieces (element : PseudoElement) : List Piece :=
  .mark .colon :: (element.element.pieces ++ element.pseudoClasses.flatMap PseudoClass.pieces)

def Subclass.pieces (layout : Layout) : Subclass → List Piece
  | .id hash => [.stored hash]
  | .className name => [.mark (.delim '.'), .stored name]
  | .attribute selector => selector.pieces layout
  | .pseudoClass selector => selector.pieces

def Compound.pieces (layout : Layout) (compound : Compound) : List Piece :=
  compound.typeSelector.toList.flatMap TypeSelector.pieces ++
    (compound.subclasses.flatMap (Subclass.pieces layout) ++
      compound.pseudoElements.flatMap PseudoElement.pieces)

def Compound.isLoneAsterisk : Compound → Bool
  | ⟨some (.universal none _), [], []⟩ => true
  | _ => false

theorem Compound.eq_of_isLoneAsterisk {compound : Compound} (h : compound.isLoneAsterisk = true) :
    ∃ asterisk, compound = ⟨some (.universal none asterisk), [], []⟩ := by
  unfold isLoneAsterisk at h
  split at h
  · exact ⟨_, rfl⟩
  · cases h

def Combinator.isExplicit (combinator : Combinator) : Bool :=
  combinator.tokens.all fun t => !t.isInsignificant

/-- A combinator with `before` in front of it if delimiters spell it. -/
def Combinator.pieces (layout : Layout) (before : List Piece) (combinator : Combinator) :
    List Piece :=
  if combinator.isExplicit then
    before ++ (combinator.tokens.map .stored ++ layout.operator)
  else combinator.tokens.map .stored

/-- What stands between a compound and the combinator behind it. -/
def Layout.behind (layout : Layout) (compound : Compound) (combinator : Combinator) :
    List Piece :=
  if compound.isLoneAsterisk && combinator.kind = .column then layout.column
  else layout.operator

def Complex.pieces (layout : Layout) : Complex → List Piece
  | .last left => left.pieces layout
  | .link left combinator right =>
    left.pieces layout ++
      (combinator.pieces layout (layout.behind left combinator) ++ right.pieces layout)

def Selector.pieces (layout : Layout) : Selector → List Piece
  | .complex chain => chain.pieces layout
  | .relative combinator chain =>
    combinator.toList.flatMap (Combinator.pieces layout layout.operator) ++ chain.pieces layout

def Selector.piecesOfTail (layout : Layout) (selectors : List Selector) : List Piece :=
  selectors.flatMap fun selector =>
    layout.comma ++ ([.mark .comma] ++ (layout.comma ++ selector.pieces layout))

def Selector.piecesOfItems (layout : Layout) : List Selector → List Piece
  | [] => []
  | first :: others => first.pieces layout ++ Selector.piecesOfTail layout others

def Selector.piecesOfList (layout : Layout) (selectors : List Selector) : List Piece :=
  layout.outer ++ (Selector.piecesOfItems layout selectors ++ layout.outer)

/-! ## Layouts that are related -/

/-- A relation between pieces that holds for what is written one behind another. -/
structure Compatible (R : List Piece → List Piece → Prop) : Prop where
  refl : ∀ pieces, R pieces pieces
  append : ∀ {left right left' right' : List Piece}, R left right → R left' right' →
    R (left ++ left') (right ++ right')

theorem Compatible.flatMap {R : List Piece → List Piece → Prop} (hR : Compatible R) {α : Type}
    {f g : α → List Piece} (h : ∀ a, R (f a) (g a)) (as : List α) :
    R (as.flatMap f) (as.flatMap g) := by
  induction as with
  | nil => exact hR.refl []
  | cons a as ih =>
      rw [List.flatMap_cons, List.flatMap_cons]
      exact hR.append (h a) ih

/-- What stands in one layout is related to what stands in the other. -/
structure Layout.Within (R : List Piece → List Piece → Prop) (layout wider : Layout) : Prop where
  compatible : Compatible R
  bracket : R layout.bracket wider.bracket
  operator : R layout.operator wider.operator
  column : R layout.column wider.column
  comma : R layout.comma wider.comma
  outer : R layout.outer wider.outer

namespace Layout.Within

variable {R : List Piece → List Piece → Prop} {layout wider : Layout}

theorem refl (hR : Compatible R) (layout : Layout) : Within R layout layout :=
  ⟨hR, hR.refl _, hR.refl _, hR.refl _, hR.refl _, hR.refl _⟩

theorem same (h : Within R layout wider) (pieces : List Piece) : R pieces pieces :=
  h.compatible.refl pieces

theorem attributeTest (h : Within R layout wider) (test : AttributeTest) :
    R (test.pieces layout) (test.pieces wider) := by
  have hmodifier (modifier : AttributeModifier) :
      R (.stored modifier.token :: layout.bracket) (.stored modifier.token :: wider.bracket) :=
    h.compatible.append (h.same [_]) h.bracket
  unfold AttributeTest.pieces
  apply h.compatible.append (h.same _)
  apply h.compatible.append h.bracket
  apply h.compatible.append (h.same _)
  exact h.compatible.append h.bracket (h.compatible.flatMap hmodifier _)

theorem attributeSelector (h : Within R layout wider) (selector : AttributeSelector) :
    R (selector.pieces layout) (selector.pieces wider) := by
  unfold AttributeSelector.pieces
  apply h.compatible.append (h.same _)
  apply h.compatible.append h.bracket
  apply h.compatible.append (h.same _)
  apply h.compatible.append h.bracket
  exact h.compatible.append (h.compatible.flatMap h.attributeTest _) (h.same _)

theorem subclass (h : Within R layout wider) (subclass : Subclass) :
    R (subclass.pieces layout) (subclass.pieces wider) := by
  match subclass with
  | .id hash => exact h.same _
  | .className name => exact h.same _
  | .attribute selector => exact h.attributeSelector selector
  | .pseudoClass selector => exact h.same _

theorem compound (h : Within R layout wider) (compound : Compound) :
    R (compound.pieces layout) (compound.pieces wider) := by
  unfold Compound.pieces
  apply h.compatible.append (h.same _)
  exact h.compatible.append (h.compatible.flatMap h.subclass _) (h.same _)

theorem combinator (h : Within R layout wider) {before before' : List Piece}
    (hbefore : R before before') (combinator : Combinator) :
    R (combinator.pieces layout before) (combinator.pieces wider before') := by
  unfold Combinator.pieces
  split
  · exact h.compatible.append hbefore (h.compatible.append (h.same _) h.operator)
  · exact h.same _

theorem behind (h : Within R layout wider) (compound : Compound) (combinator : Combinator) :
    R (layout.behind compound combinator) (wider.behind compound combinator) := by
  unfold Layout.behind
  split
  · exact h.column
  · exact h.operator

theorem complex (h : Within R layout wider) (chain : Complex) :
    R (chain.pieces layout) (chain.pieces wider) := by
  induction chain using Complex.compounds.induct with
  | case1 left => exact h.compound left
  | case2 left combinator right ih =>
      apply h.compatible.append (h.compound left)
      exact h.compatible.append (h.combinator (h.behind left combinator) _) ih

theorem selector (h : Within R layout wider) (selector : Selector) :
    R (selector.pieces layout) (selector.pieces wider) := by
  cases selector with
  | complex chain => exact h.complex chain
  | relative combinator chain =>
      have hcombinator := h.compatible.flatMap (h.combinator h.operator) combinator.toList
      exact h.compatible.append hcombinator (h.complex chain)

theorem list (h : Within R layout wider) (selectors : List Selector) :
    R (Selector.piecesOfList layout selectors) (Selector.piecesOfList wider selectors) := by
  apply h.compatible.append h.outer
  refine h.compatible.append ?_ h.outer
  cases selectors with
  | nil => exact h.same _
  | cons first others =>
      apply h.compatible.append (h.selector first)
      refine h.compatible.flatMap (fun selector => ?_) others
      apply h.compatible.append h.comma
      apply h.compatible.append (h.same _)
      exact h.compatible.append h.comma (h.selector selector)

end Layout.Within

/-! ## Layouts that fit into gaps -/

/-- Whatever spells `left` spells `right`. -/
def Fills (left right : List Piece) : Prop :=
  ∀ tokens rest, Spells left tokens rest → Spells right tokens rest

namespace Fills

theorem compatible : Compatible Fills where
  refl := fun _ _ _ h => h
  append := by
    intro left right left' right' h h' tokens rest hspells
    obtain ⟨middle, hleft, hleft'⟩ := spells_append_iff.1 hspells
    exact (h _ _ hleft).append (h' _ _ hleft')

theorem gap_of_nil : Fills [] [.gap false] := by
  rintro tokens rest rfl
  exact ⟨[], tokens, rfl, by simp, by simp, rfl⟩

theorem gap_of_whitespace (needed : Bool) : Fills [.mark .whitespace] [.gap needed] := by
  rintro tokens rest ⟨span, middle, rfl, rfl⟩
  exact ⟨[.atom .whitespace span], middle, rfl, by simp [Token.isInsignificant], by simp, rfl⟩

theorem gap_of_gap (needed : Bool) : Fills [.gap needed] [.gap false] := by
  rintro tokens rest ⟨blank, middle, rfl, hblank, -, rfl⟩
  exact ⟨blank, middle, rfl, hblank, by simp, rfl⟩

end Fills

theorem Layout.spaced_within_free : Layout.Within Fills .spaced .free where
  compatible := Fills.compatible
  bracket := Fills.gap_of_nil
  operator := Fills.gap_of_whitespace false
  column := Fills.gap_of_whitespace true
  comma := Fills.gap_of_nil
  outer := Fills.gap_of_nil

end CssSelectors
