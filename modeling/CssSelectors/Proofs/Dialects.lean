import CssSelectors.Proofs.Levels

/-!
# What the dialects share

Whatever is a selector list in the standard dialect is one in the extended dialect, and the
same one as far as its functions: arguments that were kept as they stand may turn out to be
a selector list, and this may be nested too deeply.
-/

namespace CssSelectors

open Production

/-! ## Well-formed in both dialects -/

theorem TypeSelector.WellFormed.extended {selector : TypeSelector}
    (h : selector.WellFormed .standard) : selector.WellFormed .extended := by
  match selector with
  | .name _ => exact h
  | .universal _ _ => exact h
  | .atKeyword _ => cases h.1
  | .xpath _ => cases h.1

theorem AttributeTest.WellFormed.extended {test : AttributeTest} (h : test.WellFormed .standard) :
    test.WellFormed .extended :=
  ⟨⟨h.1.1, fun _ => rfl⟩, h.2⟩

theorem AttributeName.WellFormed.extended {name : AttributeName} (h : name.WellFormed .standard) :
    name.WellFormed .extended := by
  match name with
  | .qualified _ => exact h
  | .atKeyword _ => cases h.1
  | .position _ => cases h.1
  | .xpath _ => cases h.1

theorem Subclass.WellFormed.extended {part : Subclass} (h : part.WellFormed .standard) :
    part.WellFormed .extended := by
  match part with
  | .id _ => exact h
  | .className _ => exact h
  | .attribute selector =>
      have hselector : selector.WellFormed .standard := h
      obtain ⟨hname, htest, hposition⟩ := hselector
      exact ⟨hname.extended, fun test ht => (htest test ht).extended, hposition⟩
  | .pseudoClass _ => exact h

theorem Compound.WellFormed.extended {compound : Compound} (h : compound.WellFormed .standard) :
    compound.WellFormed .extended where
  typeSelector := fun selector hs => (h.typeSelector selector hs).extended
  subclasses := fun part hp => Subclass.WellFormed.extended (h.subclasses part hp)
  pseudoElements := h.pseudoElements
  nonempty := h.nonempty

theorem Combinator.IsOperator.extended {combinator : Combinator}
    (h : combinator.IsOperator .standard) : combinator.IsOperator .extended := by
  obtain ⟨symbol, hop, hspelled⟩ := h
  have hoperators : Dialect.operators .extended =
      [(.descendant, ['/', '/']), (.child, ['/'])] ++ Dialect.operators .standard := rfl
  refine ⟨symbol, ?_, hspelled⟩
  rw [hoperators]
  exact List.mem_append_right _ hop

theorem Complex.WellFormed.extended {chain : Complex} (h : chain.WellFormed .standard) :
    chain.WellFormed .extended := by
  induction chain using Complex.compounds.induct with
  | case1 left => exact Compound.WellFormed.extended h
  | case2 left combinator right ih =>
      obtain ⟨hleft, hcombinator, hright⟩ := h
      exact ⟨Compound.WellFormed.extended hleft,
        hcombinator.imp_left Combinator.IsOperator.extended, ih hright⟩

theorem Selector.WellFormed.extended {selector : Selector} (h : selector.WellFormed .standard) :
    selector.WellFormed .extended := by
  cases selector with
  | complex chain => exact Complex.WellFormed.extended h
  | relative combinator chain =>
      obtain ⟨⟨c, hcombinator, hc⟩, hchain⟩ := h
      exact ⟨⟨c, hcombinator, hc.extended⟩, Complex.WellFormed.extended hchain⟩

/-! ## Other arguments -/

section WithArguments

def PseudoClass.withArguments (f : Token → Arguments) : PseudoClass → PseudoClass
  | .plain name => .plain name
  | .function token _ => .function token (f token)

def PseudoElement.withArguments (f : Token → Arguments) (element : PseudoElement) :
    PseudoElement :=
  ⟨element.element.withArguments f, element.pseudoClasses.map (PseudoClass.withArguments f)⟩

def Subclass.withArguments (f : Token → Arguments) : Subclass → Subclass
  | .id hash => .id hash
  | .className name => .className name
  | .attribute selector => .attribute selector
  | .pseudoClass selector => .pseudoClass (selector.withArguments f)

def Compound.withArguments (f : Token → Arguments) (compound : Compound) : Compound :=
  ⟨compound.typeSelector, compound.subclasses.map (Subclass.withArguments f),
    compound.pseudoElements.map (PseudoElement.withArguments f)⟩

def Complex.withArguments (f : Token → Arguments) : Complex → Complex
  | .last left => .last (left.withArguments f)
  | .link left combinator right =>
    .link (left.withArguments f) combinator (right.withArguments f)

/-- The selector with the arguments of all its functions replaced by those that `f` gives. -/
def Selector.withArguments (f : Token → Arguments) : Selector → Selector
  | .complex chain => .complex (chain.withArguments f)
  | .relative combinator chain => .relative combinator (chain.withArguments f)

variable {dialect : Dialect} {f : Token → Arguments}

/-! Arguments are part of the token of a function, so nothing is written in another way. -/

theorem PseudoClass.pieces_withArguments (selector : PseudoClass) :
    (selector.withArguments f).pieces = selector.pieces := by
  cases selector <;> rfl

theorem PseudoElement.pieces_withArguments (element : PseudoElement) :
    (element.withArguments f).pieces = element.pieces := by
  simp [PseudoElement.pieces, PseudoElement.withArguments, PseudoClass.pieces_withArguments,
    List.flatMap_map]

theorem Subclass.pieces_withArguments (layout : Layout) (part : Subclass) :
    (part.withArguments f).pieces layout = part.pieces layout := by
  match part with
  | .id _ => rfl
  | .className _ => rfl
  | .attribute _ => rfl
  | .pseudoClass selector => exact selector.pieces_withArguments

theorem Compound.pieces_withArguments (layout : Layout) (compound : Compound) :
    (compound.withArguments f).pieces layout = compound.pieces layout := by
  simp [Compound.pieces, Compound.withArguments, Subclass.pieces_withArguments,
    PseudoElement.pieces_withArguments, List.flatMap_map]

theorem Compound.isLoneAsterisk_withArguments (compound : Compound) :
    (compound.withArguments f).isLoneAsterisk = compound.isLoneAsterisk := by
  obtain ⟨type, parts, elements⟩ := compound
  cases parts <;> cases elements <;> simp [Compound.withArguments, Compound.isLoneAsterisk]

theorem Complex.pieces_withArguments (layout : Layout) (chain : Complex) :
    (chain.withArguments f).pieces layout = chain.pieces layout := by
  induction chain using Complex.compounds.induct with
  | case1 left => exact left.pieces_withArguments layout
  | case2 left combinator right ih =>
      rw [Complex.withArguments, Complex.pieces, Complex.pieces, ih, Layout.behind,
        left.pieces_withArguments, left.isLoneAsterisk_withArguments]
      rfl

theorem Selector.pieces_withArguments (layout : Layout) (selector : Selector) :
    (selector.withArguments f).pieces layout = selector.pieces layout := by
  cases selector with
  | complex chain => exact chain.pieces_withArguments layout
  | relative combinator chain =>
      rw [Selector.withArguments, Selector.pieces, Selector.pieces, chain.pieces_withArguments]

theorem Selector.piecesOfList_withArguments (layout : Layout) (list : List Selector) :
    Selector.piecesOfList layout (list.map (Selector.withArguments f)) =
      Selector.piecesOfList layout list := by
  cases list with
  | nil => rfl
  | cons s others =>
      simp [Selector.piecesOfList, Selector.piecesOfItems, Selector.piecesOfTail,
        Selector.pieces_withArguments, List.flatMap_map]

theorem PseudoClass.WellFormed.withArguments {selector : PseudoClass} (h : selector.WellFormed) :
    (selector.withArguments f).WellFormed := by
  cases selector <;> exact h

theorem PseudoElement.WellFormed.withArguments {element : PseudoElement} (h : element.WellFormed) :
    (element.withArguments f).WellFormed :=
  ⟨h.1.withArguments, List.forall_mem_map.2 fun c hc => (h.2 c hc).withArguments⟩

theorem Subclass.WellFormed.withArguments {part : Subclass} (h : part.WellFormed dialect) :
    (part.withArguments f).WellFormed dialect := by
  match part with
  | .id _ => exact h
  | .className _ => exact h
  | .attribute _ => exact h
  | .pseudoClass selector => exact PseudoClass.WellFormed.withArguments h

theorem Compound.WellFormed.withArguments {compound : Compound} (h : compound.WellFormed dialect) :
    (compound.withArguments f).WellFormed dialect where
  typeSelector := h.typeSelector
  subclasses := List.forall_mem_map.2 fun part hp =>
    Subclass.WellFormed.withArguments (h.subclasses part hp)
  pseudoElements := List.forall_mem_map.2 fun e he => (h.pseudoElements e he).withArguments
  nonempty := by simpa [Compound.withArguments] using h.nonempty

theorem Complex.WellFormed.withArguments {chain : Complex} (h : chain.WellFormed dialect) :
    (chain.withArguments f).WellFormed dialect := by
  induction chain using Complex.compounds.induct with
  | case1 left => exact Compound.WellFormed.withArguments h
  | case2 left combinator right ih =>
      obtain ⟨hleft, hcombinator, hright⟩ := h
      exact ⟨Compound.WellFormed.withArguments hleft, hcombinator, ih hright⟩

theorem Selector.WellFormed.withArguments {selector : Selector} (h : selector.WellFormed dialect) :
    (selector.withArguments f).WellFormed dialect := by
  cases selector with
  | complex chain => exact Complex.WellFormed.withArguments h
  | relative combinator chain => exact ⟨h.1, Complex.WellFormed.withArguments h.2⟩

def replaceCall (f : Token → Arguments) (call : Token × Arguments) : Token × Arguments :=
  (call.1, f call.1)

theorem PseudoClass.calls_withArguments (selector : PseudoClass) :
    (selector.withArguments f).calls = selector.calls.map (replaceCall f) := by
  cases selector <;> rfl

theorem PseudoElement.calls_withArguments (element : PseudoElement) :
    (element.withArguments f).calls = element.calls.map (replaceCall f) := by
  simp [PseudoElement.calls, PseudoElement.withArguments, PseudoClass.calls_withArguments,
    List.flatMap_map, List.map_flatMap]

theorem Subclass.calls_withArguments (part : Subclass) :
    (part.withArguments f).calls = part.calls.map (replaceCall f) := by
  match part with
  | .id _ => rfl
  | .className _ => rfl
  | .attribute _ => rfl
  | .pseudoClass selector => exact selector.calls_withArguments

theorem Compound.calls_withArguments (compound : Compound) :
    (compound.withArguments f).calls = compound.calls.map (replaceCall f) := by
  simp [Compound.calls, Compound.withArguments, Subclass.calls_withArguments,
    PseudoElement.calls_withArguments, List.flatMap_map, List.map_flatMap]

theorem Complex.calls_withArguments (chain : Complex) :
    (chain.withArguments f).calls = chain.calls.map (replaceCall f) := by
  unfold Complex.calls
  induction chain using Complex.compounds.induct with
  | case1 left => simp [Complex.withArguments, Complex.compounds, left.calls_withArguments]
  | case2 left combinator right ih =>
      simp [Complex.withArguments, Complex.compounds, left.calls_withArguments, ih]

theorem Selector.calls_withArguments (selector : Selector) :
    (selector.withArguments f).calls = selector.calls.map (replaceCall f) := by
  cases selector with
  | complex chain => exact chain.calls_withArguments
  | relative combinator chain => exact chain.calls_withArguments

theorem Selector.callsOfList_withArguments (list : List Selector) :
    Selector.callsOfList (list.map (Selector.withArguments f)) =
      (Selector.callsOfList list).map (replaceCall f) := by
  simp [Selector.callsOfList, Selector.calls_withArguments, List.flatMap_map, List.map_flatMap]

end WithArguments

/-! ## Wider readings -/

/-- The lists are the same but for the arguments of their functions, which are related. -/
def Selector.AgreeUpTo (R : Arguments → Arguments → Prop) (list other : List Selector) : Prop :=
  ∃ f, other = list.map (Selector.withArguments f) ∧
    ∀ call ∈ Selector.callsOfList list, R call.2 (f call.1)

/-- The arguments are the same, or were kept as they stand and are now read as the selector list
that they form in the extended dialect. This may be so at every level. -/
def Arguments.Widens : Nat → Arguments → Arguments → Prop
  | 0, arguments, wider => wider = arguments
  | levels + 1, .selectors list, wider =>
    ∃ other, wider = .selectors other ∧ Selector.AgreeUpTo (Widens levels) list other
  | levels + 1, .raw tokens, wider =>
    wider = .raw tokens ∨
      ∃ list, wider = .selectors list ∧ parseTokens ⟨.extended, levels⟩ tokens = .ok list
  | _ + 1, .empty, wider => wider = .empty
  | _ + 1, .anPlusB value, wider => wider = .anPlusB value

namespace Grammar

variable {levels : Nat} {tokens : List Token} {list : List Selector} {function : Token}
  {arguments arguments' : Arguments}

/-- What is accepted in the standard dialect is in the extended one, if all arguments are. -/
theorem Accepts.withArguments {g : Grammar} (h : (ofLevels .standard levels).Accepts list)
    (hg : g.dialect = .extended) {f : Token → Arguments}
    (hf : ∀ call ∈ Selector.callsOfList list, g.Yields call.1 (f call.1)) :
    g.Accepts (list.map (Selector.withArguments f)) := by
  constructor
  · simpa using h.nonempty
  · rw [hg]
    exact List.forall_mem_map.2 fun s hs => (h.wellFormed s hs).extended.withArguments
  · unfold YieldsAll
    rw [Selector.callsOfList_withArguments]
    exact List.forall_mem_map.2 hf

theorem exists_levels_yields (levels : Nat) (functions : List Token) :
    ∃ enough, levels ≤ enough ∧ ∃ f : Token → Arguments, ∀ function ∈ functions,
      (ofLevels .extended enough).Yields function (f function) := by
  let enough := max levels (Token.nestingOfList functions)
  have hyields : ∀ function, ∃ arguments, function ∈ functions →
      (ofLevels .extended enough).Yields function arguments := by
    intro function
    by_cases hmem : function ∈ functions
    · have hle : function.nesting ≤ enough :=
        Nat.le_trans (Token.nesting_le_nestingOfList hmem) (Nat.le_max_right _ _)
      obtain ⟨arguments, hyields⟩ :
          ∃ arguments, (ofLevels .extended enough).Yields function arguments :=
        exists_yields_of_nesting_le hle
      exact ⟨arguments, fun _ => hyields⟩
    · exact ⟨.empty, fun h => absurd h hmem⟩
  exact ⟨enough, Nat.le_max_left _ _, Classical.axiomOfChoice hyields⟩

theorem parse_extended_cases (h : parseTokens ⟨.standard, levels⟩ tokens = .ok list) :
    parseTokens ⟨.extended, levels⟩ tokens = .error (.nestingTooDeep levels) ∨
      ∃ f, parseTokens ⟨.extended, levels⟩ tokens = .ok (list.map (Selector.withArguments f)) := by
  obtain ⟨hlist, hspells⟩ := parseTokens_eq_ok_iff.1 h
  obtain ⟨enough, hle, f, hf⟩ :=
    exists_levels_yields levels ((Selector.callsOfList list).map Prod.fst)
  have hok : parseTokens ⟨.extended, enough⟩ tokens =
      .ok (list.map (Selector.withArguments f)) := by
    refine parseTokens_eq_ok_iff.2 ⟨hlist.withArguments rfl fun call hcall => ?_, ?_⟩
    · exact hf call.1 (List.mem_map_of_mem hcall)
    · rwa [Selector.piecesOfList_withArguments]
  -- the lower limit cuts the reading off or finds the same list
  rcases parseTokens_eq_of_le hle with hdeep | hsame
  · exact .inl hdeep
  · exact .inr ⟨f, hsame.trans hok⟩

theorem agreeUpTo_of_parse {R : Arguments → Arguments → Prop} {f : Token → Arguments}
    (hR : ∀ function arguments arguments', (ofLevels .standard levels).Yields function arguments →
      (ofLevels .extended levels).Yields function arguments' → R arguments arguments')
    (h : parseTokens ⟨.standard, levels⟩ tokens = .ok list)
    (h' : parseTokens ⟨.extended, levels⟩ tokens = .ok (list.map (Selector.withArguments f))) :
    Selector.AgreeUpTo R list (list.map (Selector.withArguments f)) := by
  obtain ⟨hlist, -⟩ := parseTokens_eq_ok_iff.1 h
  obtain ⟨hwider, -⟩ := parseTokens_eq_ok_iff.1 h'
  have hyields := hwider.yields
  rw [Selector.callsOfList_withArguments] at hyields
  refine ⟨f, rfl, fun call hcall => ?_⟩
  exact hR call.1 _ _ (hlist.yields call hcall) (hyields _ (List.mem_map_of_mem hcall))

/-- The dialects yield the same arguments for a function, or the extended one yields wider ones. -/
theorem widens_of_yields (h : (ofLevels .standard levels).Yields function arguments)
    (h' : (ofLevels .extended levels).Yields function arguments') :
    arguments.Widens levels arguments' := by
  induction levels generalizing function arguments arguments' with
  | zero =>
      by_cases hnil : argumentTokens function = []
      · obtain rfl := (yields_empty_iff hnil).1 h
        obtain rfl := (yields_empty_iff hnil).1 h'
        rfl
      · exact absurd h (not_yields_zero hnil)
  | succ levels ih =>
      by_cases hnil : argumentTokens function = []
      · obtain rfl := (yields_empty_iff hnil).1 h
        obtain rfl := (yields_empty_iff hnil).1 h'
        rfl
      have hsays := (yields_succ_iff hnil).1 h
      have hsays' := (yields_succ_iff hnil).1 h'
      cases arguments with
      | empty => cases hsays
      | anPlusB value =>
          cases hsays with
          | anPlusB hmatches => exact hsays'.unique (.anPlusB hmatches)
      | selectors list =>
          obtain ⟨hno, hok⟩ := says_selectors_iff.1 hsays
          rcases parse_extended_cases hok with hdeep | ⟨f, hok'⟩
          · obtain ⟨hover, -⟩ := parseTokens_eq_tooDeep_iff.1 hdeep
            exact absurd hover (hsays'.not_overflows hno)
          · obtain rfl := hsays'.unique (says_selectors_iff.2 ⟨hno, hok'⟩)
            exact ⟨_, rfl, agreeUpTo_of_parse (fun _ _ _ => ih) hok hok'⟩
      | raw kept =>
          obtain ⟨rfl, hno, -⟩ := says_raw_iff.1 hsays
          cases hsays' with
          | anPlusB hmatches => exact absurd hmatches (hno _ _)
          | selectors _ hmatches hend =>
              exact .inr ⟨_, rfl, parseTokens_eq_ok_iff_matches.2 ⟨_, hmatches, hend⟩⟩
          | raw _ _ _ => exact .inl rfl

theorem yields_extended (h : (ofLevels .standard levels).Yields function arguments)
    (hraw : ∀ kept, arguments ≠ .raw kept)
    (hlist : ∀ deeper list, levels = deeper + 1 → arguments = .selectors list →
      parseTokens ⟨.standard, deeper⟩ (argumentTokens function) = .ok list →
        parseTokens ⟨.extended, deeper⟩ (argumentTokens function) = .ok list) :
    (ofLevels .extended levels).Yields function arguments := by
  by_cases hnil : argumentTokens function = []
  · exact (yields_empty_iff hnil).2 ((yields_empty_iff hnil).1 h)
  · cases levels with
    | zero => exact absurd h (not_yields_zero hnil)
    | succ levels =>
        have hsays := (yields_succ_iff hnil).1 h
        apply (yields_succ_iff hnil).2
        cases arguments with
        | empty => cases hsays
        | anPlusB value =>
            cases hsays with
            | anPlusB hmatches => exact .anPlusB hmatches
        | selectors list =>
            obtain ⟨hno, hok⟩ := says_selectors_iff.1 hsays
            exact says_selectors_iff.2 ⟨hno, hlist levels list rfl rfl hok⟩
        | raw kept => exact absurd rfl (hraw kept)

/-- A standard list in which no arguments are kept as they stand is the same list in the extended
dialect. -/
theorem parse_extended_of_noRaw (h : parseTokens ⟨.standard, levels⟩ tokens = .ok list)
    (hraw : ∀ depth function kept, ¬ CallAt list depth function (.raw kept)) :
    parseTokens ⟨.extended, levels⟩ tokens = .ok list := by
  induction levels using Nat.strongRecOn generalizing tokens list with
  | ind levels ih =>
      obtain ⟨hlist, hspells⟩ := parseTokens_eq_ok_iff.1 h
      have hwell : ∀ s ∈ list, s.WellFormed .extended :=
        fun s hs => (hlist.wellFormed s hs).extended
      refine parseTokens_eq_ok_iff.2 ⟨⟨hlist.nonempty, hwell, ?_⟩, hspells⟩
      rintro ⟨function, arguments⟩ hcall
      apply yields_extended (hlist.yields _ hcall)
      · rintro kept rfl
        exact hraw 0 function kept (.here hcall)
      · rintro deeper inner rfl rfl hok
        refine ih deeper (Nat.lt_succ_self deeper) hok fun depth function kept hinner => ?_
        exact hraw (depth + 1) function kept (.inside hcall hinner)

end Grammar

/-- The extended dialect is conservative: what the standard dialect reads, it reads as the same
list up to arguments that it can make more of, or finds them nested too deeply. Where nothing was
kept as it stands, it reads the very same list. -/
theorem parse_extended_conservative {limit : Nat} {tokens : List Token} {list : List Selector}
    (h : parseTokens ⟨.standard, limit⟩ tokens = .ok list) :
    (parseTokens ⟨.extended, limit⟩ tokens = .error (.nestingTooDeep limit) ∨
      ∃ wider, parseTokens ⟨.extended, limit⟩ tokens = .ok wider ∧
        Selector.AgreeUpTo (Arguments.Widens limit) list wider) ∧
    ((∀ depth function kept, ¬ CallAt list depth function (.raw kept)) →
      parseTokens ⟨.extended, limit⟩ tokens = .ok list) := by
  refine ⟨?_, Grammar.parse_extended_of_noRaw h⟩
  rcases Grammar.parse_extended_cases h with hdeep | ⟨f, hwider⟩
  · exact .inl hdeep
  · have hagree := Grammar.agreeUpTo_of_parse (fun _ _ _ => Grammar.widens_of_yields) h hwider
    exact .inr ⟨_, hwider, hagree⟩

theorem parse_extended_conservative_atKeyword :
    ∃ list wider,
      parseTokens ⟨.standard, 1⟩ [.atom .colon ⟨0, 1⟩,
        .function "f" [.atom (.atKeyword "a") ⟨3, 5⟩] ⟨1, 6⟩] = .ok list ∧
      parseTokens ⟨.extended, 1⟩ [.atom .colon ⟨0, 1⟩,
        .function "f" [.atom (.atKeyword "a") ⟨3, 5⟩] ⟨1, 6⟩] = .ok wider ∧
      Selector.AgreeUpTo (Arguments.Widens 1) list wider := by
  let f : Token := .function "f" [.atom (.atKeyword "a") ⟨3, 5⟩] ⟨1, 6⟩
  have h : parseTokens ⟨.standard, 1⟩ [.atom .colon ⟨0, 1⟩, f] = .ok [.complex (.last
      ⟨none, [.pseudoClass (.function f (.raw [.atom (.atKeyword "a") ⟨3, 5⟩]))], []⟩)] := by
    with_unfolding_all rfl
  have hok : (parseTokens ⟨.extended, 1⟩ [.atom .colon ⟨0, 1⟩, f]).isOk = true := by
    with_unfolding_all rfl
  rcases (parse_extended_conservative h).1 with hdeep | ⟨wider, hwider, hagree⟩
  · rw [hdeep] at hok
    cases hok
  · exact ⟨_, wider, h, hwider, hagree⟩

end CssSelectors
