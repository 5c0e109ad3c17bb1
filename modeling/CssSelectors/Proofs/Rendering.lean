import CssSelectors.Proofs.Levels

/-!
# Rendered lists are read back

Every well-formed selector list is what the reading of its renderings yields, if its
functions hold the arguments that the grammar computes for them and are not nested more
deeply than allowed.
-/

namespace CssSelectors

open Production

variable {tokens rest : List Token} {layout : Layout} {call : Token × Arguments}

/-! ## Functions among the tokens -/

def Token.callPieces (function : Token) : List Piece :=
  [.mark .colon, .stored function]

theorem infix_flatMap {α : Type} {f : α → List Piece} {as : List α} {a : α} {pieces : List Piece}
    (ha : a ∈ as) (h : pieces <:+: f a) : pieces <:+: as.flatMap f :=
  h.trans (List.infix_of_mem_flatten (List.mem_map_of_mem ha))

theorem PseudoClass.callPieces_of_mem_calls {selector : PseudoClass} (h : call ∈ selector.calls) :
    call.1.callPieces <:+: selector.pieces := by
  cases selector with
  | plain name => cases h
  | function token arguments =>
      obtain rfl := List.mem_singleton.1 h
      exact List.infix_rfl

theorem PseudoElement.callPieces_of_mem_calls {element : PseudoElement}
    (h : call ∈ element.calls) : call.1.callPieces <:+: element.pieces := by
  apply List.infix_cons
  rcases List.mem_append.1 h with h | h
  · exact List.infix_append_of_infix_left (PseudoClass.callPieces_of_mem_calls h)
  · obtain ⟨selector, hselector, h⟩ := List.mem_flatMap.1 h
    apply List.infix_append_of_infix_right
    exact infix_flatMap hselector (PseudoClass.callPieces_of_mem_calls h)

theorem Compound.callPieces_of_mem_calls {compound : Compound} (h : call ∈ compound.calls) :
    call.1.callPieces <:+: compound.pieces layout := by
  apply List.infix_append_of_infix_right
  rcases List.mem_append.1 h with h | h
  · obtain ⟨part, hpart, h⟩ := List.mem_flatMap.1 h
    apply List.infix_append_of_infix_left
    refine infix_flatMap hpart ?_
    match part with
    | .pseudoClass selector => exact PseudoClass.callPieces_of_mem_calls h
    | .id _ => cases h
    | .className _ => cases h
    | .attribute _ => cases h
  · obtain ⟨element, helement, h⟩ := List.mem_flatMap.1 h
    apply List.infix_append_of_infix_right
    exact infix_flatMap helement (PseudoElement.callPieces_of_mem_calls h)

theorem Complex.callPieces_of_mem_calls {chain : Complex} (h : call ∈ chain.calls) :
    call.1.callPieces <:+: chain.pieces layout := by
  induction chain using Complex.compounds.induct with
  | case1 left =>
      have h : call ∈ left.calls := by simpa [Complex.calls, Complex.compounds] using h
      exact Compound.callPieces_of_mem_calls h
  | case2 left combinator right ih =>
      have h : call ∈ left.calls ∨ call ∈ right.calls := by
        simpa [Complex.calls, Complex.compounds] using h
      rcases h with h | h
      · exact List.infix_append_of_infix_left (Compound.callPieces_of_mem_calls h)
      · exact List.infix_append_of_infix_right (List.infix_append_of_infix_right (ih h))

theorem Selector.callPieces_of_mem_calls {selector : Selector} (h : call ∈ selector.calls) :
    call.1.callPieces <:+: selector.pieces layout := by
  cases selector with
  | complex chain => exact Complex.callPieces_of_mem_calls h
  | relative combinator chain =>
      exact List.infix_append_of_infix_right (Complex.callPieces_of_mem_calls h)

theorem Selector.callPieces_of_mem_callsOfList {list : List Selector}
    (h : call ∈ Selector.callsOfList list) :
    call.1.callPieces <:+: Selector.piecesOfList layout list := by
  obtain ⟨s, hs, hcall⟩ := List.mem_flatMap.1 h
  have hpieces : call.1.callPieces <:+: s.pieces layout := Selector.callPieces_of_mem_calls hcall
  apply List.infix_append_of_infix_right
  apply List.infix_append_of_infix_left
  cases list with
  | nil => cases hs
  | cons first others =>
      rcases List.mem_cons.1 hs with rfl | hs
      · exact List.infix_append_of_infix_left hpieces
      · apply List.infix_append_of_infix_right
        refine infix_flatMap hs ?_
        iterate 3 apply List.infix_append_of_infix_right
        exact hpieces

theorem Selector.stored_of_mem_callsOfList {list : List Selector}
    (h : call ∈ Selector.callsOfList list) :
    .stored call.1 ∈ Selector.piecesOfList layout list :=
  (Selector.callPieces_of_mem_callsOfList h).subset (by simp [Token.callPieces])

/-! ## Renderings -/

/-- The tokens of the list with one whitespace token on each side of every combinator that
delimiters spell, the punctuation at any place. -/
def Renders (list : List Selector) (tokens : List Token) : Prop :=
  Spells (Selector.piecesOfList .spaced list) tokens []

theorem exists_spells (pieces : List Piece) : ∃ tokens, Spells pieces tokens [] := by
  induction pieces with
  | nil => exact ⟨[], rfl⟩
  | cons piece pieces ih =>
      obtain ⟨tokens, h⟩ := ih
      cases piece with
      | stored t => exact ⟨t :: tokens, tokens, rfl, h⟩
      | mark a => exact ⟨.atom a ⟨0, 0⟩ :: tokens, ⟨0, 0⟩, tokens, rfl, h⟩
      | gap needed =>
          let blank : List Token := [.atom .whitespace ⟨0, 0⟩]
          refine ⟨blank ++ tokens, blank, tokens, rfl, ?_, by simp [blank], h⟩
          intro t ht
          obtain rfl := List.mem_singleton.1 ht
          rfl

/-- Every list of parts that are well formed for themselves, and with no position compared, has
renderings, and is read back from each that is not nested too deeply. What its functions hold is
all that the number of levels may decide. -/
theorem parse_rendering {options : Options} {list : List Selector} (hne : list ≠ [])
    (hdocumented : ∀ s ∈ list, s.Documented options.dialect)
    (hpositions : ∀ s ∈ list, ∀ a ∈ s.attributes,
      a.name.isPosition = true → a.test = none)
    (hcalls : ∀ call ∈ Selector.callsOfList list, ∃ levels,
      (Grammar.ofLevels options.dialect levels).Yields call.1 call.2) :
    (∃ tokens, Renders list tokens) ∧
      ∀ tokens, Renders list tokens → Token.nestingOfList tokens ≤ options.maxDepth →
        parseTokens options tokens = .ok list := by
  have hwell : ∀ s ∈ list, s.WellFormed options.dialect := fun s hs =>
    (hdocumented s hs).mono fun a ha ⟨hname, htest⟩ =>
      ⟨hname, htest, hpositions s hs a ha⟩
  refine ⟨exists_spells _, fun tokens hrenders hdepth => ?_⟩
  have hspells : Spells (Selector.piecesOfList .free list) tokens [] :=
    Layout.spaced_within_free.list list tokens [] hrenders
  have hyields : (Grammar.ofLevels options.dialect options.maxDepth).YieldsAll
      (Selector.callsOfList list) := by
    intro call hcall
    obtain ⟨levels, hlevels⟩ := hcalls call hcall
    have hmem : call.1 ∈ tokens :=
      hspells.mem_of_stored (Selector.stored_of_mem_callsOfList hcall)
    have hnesting := Token.nesting_le_nestingOfList hmem
    exact Grammar.yields_of_nesting_le (by omega) hlevels
  rw [parseTokens_eq_ok_iff, Token.beforeEof_of_spells hwell hspells]
  exact ⟨⟨hne, hwell, hyields⟩, hspells⟩

theorem parse_rendering_nested :
    parseTokens ⟨.standard, 1⟩ [.atom (.ident "a") ⟨0, 1⟩, .atom .whitespace ⟨1, 2⟩,
      .atom (.delim '>') ⟨2, 3⟩, .atom .whitespace ⟨3, 4⟩, .atom .colon ⟨4, 5⟩,
      .function "not" [.atom (.ident "b") ⟨9, 10⟩] ⟨5, 11⟩] =
    .ok [.complex (.link ⟨some (.name ⟨none, .atom (.ident "a") ⟨0, 1⟩⟩), [], []⟩
      ⟨.child, [.atom (.delim '>') ⟨2, 3⟩]⟩
      (.last ⟨none, [.pseudoClass (.function
        (.function "not" [.atom (.ident "b") ⟨9, 10⟩] ⟨5, 11⟩)
        (.selectors [.complex (.last
          ⟨some (.name ⟨none, .atom (.ident "b") ⟨9, 10⟩⟩), [], []⟩)]))], []⟩))] := by
  refine (parse_rendering (by simp) ?_ ?_ ?_).2 _ ?_ (by decide)
  · intro s hs
    obtain rfl := List.mem_singleton.1 hs
    refine ⟨⟨?_, by simp, by simp, by simp⟩, .inl ⟨['>'], by decide, ?_⟩,
      ⟨by simp, ?_, by simp, by simp⟩⟩
    · simp [TypeSelector.WellFormed, QualifiedName.WellFormed, Token.isIdent]
    · exact .cons rfl .nil
    · simp [Subclass.WellFormedBy, PseudoClass.WellFormed, Token.isFunction]
  · intro s hs
    obtain rfl := List.mem_singleton.1 hs
    simp [Selector.attributes, Complex.attributes, Complex.compounds, Compound.attributes,
      Subclass.attributes]
  · intro call hcall
    obtain rfl := List.mem_singleton.1 hcall
    refine ⟨1, fun rest => ?_⟩
    unfold Matches
    with_unfolding_all rfl
  · simp [Renders, Selector.piecesOfList, Selector.piecesOfItems, Selector.piecesOfTail,
      Selector.pieces, Complex.pieces, Compound.pieces, Combinator.pieces, TypeSelector.pieces,
      QualifiedName.pieces, Subclass.pieces, PseudoClass.pieces, Layout.behind, Layout.spaced,
      Compound.isLoneAsterisk, Combinator.isExplicit, Token.isInsignificant]

/-- The position in `[2=x]` is compared with something, which no selector is read from, though
every part of it is well formed for itself. -/
theorem parse_rendering_compared_position :
    let position : Token := .atom (.number (.ofInt 2 false)) ⟨1, 2⟩
    let equals : Token := .atom (.delim '=') ⟨2, 3⟩
    let value : Token := .atom (.ident "x") ⟨3, 4⟩
    let list : List Selector := [.complex (.last ⟨none,
      [.attribute ⟨.position position, some ⟨⟨.equal, [equals]⟩, value, none⟩⟩], []⟩)]
    let tokens : List Token :=
      [.atom .leftBracket ⟨0, 1⟩, position, equals, value, .atom .rightBracket ⟨4, 5⟩]
    list ≠ [] ∧ (∀ s ∈ list, s.Documented .extended) ∧ Selector.callsOfList list = [] ∧
      Renders list tokens ∧ Token.nestingOfList tokens = 0 ∧
        ∃ e, parseTokens ⟨.extended, 32⟩ tokens = .error e := by
  intro position equals value list tokens
  -- the number is read for its integer, so its double stays as it is
  have hparse (double : Binary64) : ∃ e, parseTokens ⟨.extended, 32⟩ [.atom .leftBracket ⟨0, 1⟩,
      .atom (.number ⟨double, some 2, .integer, false⟩) ⟨1, 2⟩, equals, value,
      .atom .rightBracket ⟨4, 5⟩] = .error e :=
    ⟨_, by with_unfolding_all rfl⟩
  refine ⟨by simp [list], ?_, rfl, ?_, rfl, hparse _⟩
  · intro s hs
    obtain rfl := List.mem_singleton.1 hs
    have hname : (AttributeName.position position).WellFormed .extended := ⟨rfl, rfl⟩
    have htest : AttributeTest.WellFormed .extended ⟨⟨.equal, [equals]⟩, value, none⟩ :=
      ⟨⟨.cons rfl .nil, by simp⟩, .inr (.inl rfl), by simp⟩
    refine ⟨by simp, ?_, by simp, by simp⟩
    intro part hpart
    obtain rfl := List.mem_singleton.1 hpart
    refine ⟨hname, fun test ht => ?_⟩
    obtain rfl := Option.mem_some_iff.1 ht
    exact htest
  · simp [Renders, list, tokens, Selector.piecesOfList, Selector.piecesOfItems,
      Selector.piecesOfTail, Selector.pieces, Complex.pieces, Compound.pieces, Subclass.pieces,
      AttributeSelector.pieces, AttributeName.pieces, AttributeTest.pieces, Layout.spaced]

end CssSelectors
