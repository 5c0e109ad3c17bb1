import CssSelectors.Proofs.Reading.Name

/-!
# Reading attribute selectors

The productions for what stands in brackets read exactly the well-formed attribute
selectors that the tokens spell, whatever follows the closing bracket.
-/

namespace CssSelectors

namespace Grammar

open Production

variable {tokens rest : List Token}

/-! ## Comparisons -/

theorem matches_matcher_iff {kind : MatcherKind} {comparison : AttributeMatcher} :
    (matcher kind).Matches tokens comparison rest ↔
      comparison.kind = kind ∧ Spelled kind.symbol comparison.tokens ∧
        tokens = comparison.tokens ++ rest := by
  obtain ⟨kind', spelling⟩ := comparison
  simp only [matcher, matches_bind_iff, matches_spelled_iff, matches_pure_iff,
    AttributeMatcher.mk.injEq]
  constructor
  · rintro ⟨_, _, ⟨rfl, h⟩, ⟨rfl, rfl⟩, rfl⟩
    exact ⟨rfl, h, rfl⟩
  · rintro ⟨rfl, h, rfl⟩
    exact ⟨_, _, ⟨rfl, h⟩, ⟨rfl, rfl⟩, rfl⟩

theorem head?_symbol_injective {kind kind' : MatcherKind}
    (h : kind.symbol.head? = kind'.symbol.head?) : kind = kind' := by
  revert h
  cases kind <;> cases kind' <;> decide

theorem exists_head_of_spelled {kind : MatcherKind} {spelling : List Token}
    (h : Spelled kind.symbol spelling) :
    ∃ c span ts, kind.symbol.head? = some c ∧ spelling = .atom (.delim c) span :: ts := by
  obtain ⟨c, cs, hc⟩ : ∃ c cs, kind.symbol = c :: cs := by cases kind <;> exact ⟨_, _, rfl⟩
  rw [hc] at h
  obtain ⟨t, ts, ht, -, rfl⟩ := List.forall₂_cons_left_iff.1 h
  obtain ⟨span, rfl⟩ := Token.isDelim_iff.1 ht
  exact ⟨c, span, ts, by rw [hc]; rfl, rfl⟩

theorem refuses_matcher {kind kind' : MatcherKind} (hne : kind ≠ kind') {spelling : List Token}
    (h : Spelled kind'.symbol spelling) : (matcher kind).Refuses (spelling ++ rest) := by
  apply refuses_of_forall_not_matches (by simp [matcher])
  intro comparison rest' hmatches
  obtain ⟨-, hspelled, happend⟩ := matches_matcher_iff.1 hmatches
  obtain ⟨c, span, ts, hc, rfl⟩ := exists_head_of_spelled h
  obtain ⟨d, span', us, hd, hus⟩ := exists_head_of_spelled hspelled
  rw [hus] at happend
  simp only [List.cons_append, List.cons.injEq, Token.atom.injEq, Atom.delim.injEq] at happend
  rw [happend.1.1, ← hd] at hc
  exact hne (head?_symbol_injective hc.symm)

theorem matches_firstOf_matcher_iff (kinds : List MatcherKind) (comparison : AttributeMatcher) :
    (firstOf (kinds.map matcher)).Matches tokens comparison rest ↔
      comparison.kind ∈ kinds ∧ Spelled comparison.kind.symbol comparison.tokens ∧
        tokens = comparison.tokens ++ rest := by
  induction kinds with
  | nil => simp
  | cons kind kinds ih =>
      rw [List.map_cons, firstOf_cons, matches_orElse_iff, ih, matches_matcher_iff, List.mem_cons]
      constructor
      · rintro (⟨rfl, h, rfl⟩ | ⟨-, hmem, h, rfl⟩)
        · exact ⟨.inl rfl, h, rfl⟩
        · exact ⟨.inr hmem, h, rfl⟩
      · rintro ⟨hkind, h, rfl⟩
        by_cases heq : kind = comparison.kind
        · subst heq
          exact .inl ⟨rfl, h, rfl⟩
        · have hmem := hkind.resolve_left fun h' => heq h'.symm
          exact .inr ⟨refuses_matcher heq h, hmem, h, rfl⟩

def standardKinds : List MatcherKind :=
  [.equal, .includeWord, .dashMatch, .startWith, .endWith, .include]

theorem standardMatcher_eq : standardMatcher = firstOf (standardKinds.map matcher) := rfl

theorem matches_attributeMatcher_iff {dialect : Dialect} {comparison : AttributeMatcher} :
    (attributeMatcher dialect).Matches tokens comparison rest ↔
      comparison.WellFormed dialect ∧ tokens = comparison.tokens ++ rest := by
  cases dialect with
  | standard =>
      rw [attributeMatcher, standardMatcher_eq, matches_firstOf_matcher_iff,
        AttributeMatcher.WellFormed]
      cases comparison.kind <;> simp [standardKinds]
  | extended =>
      have h : (attributeMatcher .extended).Matches tokens comparison rest ↔
          (firstOf (.notEqual :: standardKinds |>.map matcher)).Matches tokens comparison rest := by
        simp only [attributeMatcher, firstOf_cons, firstOf_nil, matches_orElse_iff,
          not_matches_fail, and_false, or_false, List.map_cons, standardMatcher_eq]
      rw [h, matches_firstOf_matcher_iff, AttributeMatcher.WellFormed]
      cases comparison.kind <;> simp [standardKinds]

theorem matches_attributeModifier_iff {modifier : AttributeModifier} :
    attributeModifier.Matches tokens modifier rest ↔
      modifier.WellFormed ∧ tokens = modifier.token :: rest := by
  obtain ⟨kind, t⟩ := modifier
  simp only [attributeModifier, firstOf_cons, firstOf_nil, matches_orElse_iff, not_matches_fail,
    and_false, or_false, word, matches_bind_iff, matches_token_iff, matches_pure_iff,
    AttributeModifier.mk.injEq, refuses_bind_iff]
  constructor
  · rintro (⟨_, _, ⟨rfl, h⟩, ⟨rfl, rfl⟩, rfl⟩ | ⟨-, _, _, ⟨rfl, h⟩, ⟨rfl, rfl⟩, rfl⟩)
    · exact ⟨h, rfl⟩
    · exact ⟨h, rfl⟩
  · rintro ⟨h, rfl⟩
    cases kind with
    | caseInsensitive => exact .inl ⟨_, _, ⟨rfl, h⟩, ⟨rfl, rfl⟩, rfl⟩
    | caseSensitive =>
        refine .inr ⟨.inl ?_, _, _, ⟨rfl, h⟩, ⟨rfl, rfl⟩, rfl⟩
        -- no word is both modifiers at once
        rw [refuses_token_cons_iff]
        unfold AttributeModifier.WellFormed at h
        cases hident : t.ident? with
        | none => rfl
        | some name =>
            simp only [hident, Option.any_some, equalsIgnoringCase, decide_eq_true_eq] at h ⊢
            rw [h]
            decide

def attributeValue : Production Token :=
  firstOf ([Token.isString, Token.isIdent, Token.isNumber].map token)

/-- The end of a comparison: the modifier, if there is one, and the closing bracket. -/
def modifierTail (f : Option AttributeModifier → AttributeTest) : Production AttributeTest := do
  skip
  let modifier ← optional attributeModifier
  skip
  let _ ← token Token.isRightBracket
  return f modifier

theorem attributeTest_eq (dialect : Dialect) :
    attributeTest dialect = (do
      let matcher ← attributeMatcher dialect
      skip
      let value ← attributeValue
      modifierTail (⟨matcher, value, ·⟩)) := rfl

theorem matches_attributeValue_iff {t : Token} :
    attributeValue.Matches tokens t rest ↔
      tokens = t :: rest ∧ (t.isString = true ∨ t.isIdent = true ∨ t.isNumber = true) := by
  rw [attributeValue, matches_firstOf_token_iff]
  simp

theorem refuses_attributeModifier_cons {t : Token} (h : t.ident? = none) :
    attributeModifier.Refuses (t :: rest) := by
  simp [attributeModifier, word, h]

theorem isIdent_of_wellFormed_modifier {modifier : AttributeModifier}
    (h : modifier.WellFormed) : modifier.token.isIdent = true := by
  obtain ⟨kind, t⟩ := modifier
  cases ht : t.isIdent with
  | true => rfl
  | false =>
      have hident : t.ident? = none := by
        match t with
        | .function name arguments span => rfl
        | .atom a span => cases a <;> first | rfl | cases ht
      cases kind <;> simp [AttributeModifier.WellFormed, hident] at h

theorem matches_modifierTail_iff {f : Option AttributeModifier → AttributeTest}
    {test : AttributeTest} :
    (modifierTail f).Matches tokens test rest ↔
      ∃ modifier, f modifier = test ∧ (∀ m ∈ modifier, m.WellFormed) ∧
        Spells ([.gap false] ++ (modifier.toList.flatMap (fun m => [.stored m.token, .gap false]) ++
          [.mark .rightBracket])) tokens rest := by
  simp only [modifierTail, matches_bind_iff, matches_skip_iff_spells, matches_optional_iff,
    matches_attributeModifier_iff, matches_token_iff, matches_pure_iff]
  constructor
  · rintro ⟨_, m₁, ⟨hgap, hsolid⟩, _, m₂, hmodifier, _, m₃, ⟨hgap', -⟩, bracket, _,
      ⟨rfl, hbracket⟩, rfl, rfl⟩
    obtain ⟨span, rfl⟩ := Token.isRightBracket_iff.1 hbracket
    rcases hmodifier with ⟨m, rfl, hm, rfl⟩ | ⟨-, rfl, rfl⟩
    · refine ⟨some m, rfl, by simpa using hm, hgap.append ⟨m₂, rfl, ?_⟩⟩
      exact hgap'.append ⟨span, _, rfl, rfl⟩
    · obtain rfl := hsolid.eq_of_spells_gap hgap'
      exact ⟨none, rfl, by simp, hgap.append ⟨span, _, rfl, rfl⟩⟩
  · rintro ⟨modifier, rfl, hmodifier, hspells⟩
    obtain ⟨m₁, hgap, hspells⟩ := spells_append_iff.1 hspells
    cases modifier with
    | none =>
        obtain ⟨span, after, rfl, rfl⟩ := hspells
        have hrefuses : attributeModifier.Refuses (.atom .rightBracket span :: after) :=
          refuses_attributeModifier_cons rfl
        exact ⟨(), _, ⟨hgap, by simp [Token.isInsignificant]⟩, none, _, .inr ⟨hrefuses, rfl, rfl⟩,
          (), _, ⟨spells_gap_self, by simp [Token.isInsignificant]⟩, _, _, ⟨rfl, rfl⟩, rfl, rfl⟩
    | some m =>
        obtain ⟨m₂, rfl, hspells⟩ := hspells
        obtain ⟨m₃, hgap', span, _, rfl, rfl⟩ := spells_cons_iff.1 hspells
        have hm := hmodifier m rfl
        have hsolid : Solid (m.token :: m₂) := by
          obtain ⟨_, _, heq⟩ := Token.isIdent_iff.1 (isIdent_of_wellFormed_modifier hm)
          rw [heq]
          simp [Token.isInsignificant]
        exact ⟨(), _, ⟨hgap, hsolid⟩, some m, _, .inl ⟨m, rfl, hm, rfl⟩,
          (), _, ⟨hgap', by simp [Token.isInsignificant]⟩, _, _, ⟨rfl, rfl⟩, rfl, rfl⟩

theorem solid_of_attributeValue {value : Token}
    (h : value.isString = true ∨ value.isIdent = true ∨ value.isNumber = true) :
    Solid (value :: rest) := by
  rw [solid_cons_iff]
  cases value with
  | function name arguments span => rfl
  | atom a span =>
      cases a <;> simp_all [Token.isString, Token.isIdent, Token.isNumber, Token.isInsignificant]

theorem matches_attributeTest_iff {dialect : Dialect} {test : AttributeTest} :
    (attributeTest dialect).Matches tokens test rest ↔
      test.WellFormed dialect ∧
        Spells (test.pieces .free ++ [.mark .rightBracket]) tokens rest := by
  obtain ⟨comparison, value, modifier⟩ := test
  rw [attributeTest_eq]
  simp only [matches_bind_iff, matches_attributeMatcher_iff, matches_skip_iff_spells,
    matches_attributeValue_iff, matches_modifierTail_iff, AttributeTest.mk.injEq,
    AttributeTest.pieces, Layout.free, List.append_assoc]
  constructor
  · rintro ⟨_, _, ⟨hmatcher, rfl⟩, _, _, ⟨hgap, -⟩, _, _, ⟨rfl, hvalue⟩, _, ⟨rfl, rfl, rfl⟩,
      hmodifier, hspells⟩
    refine ⟨⟨hmatcher, hvalue, hmodifier⟩, (spells_map_stored_iff.2 rfl).append ?_⟩
    exact hgap.append ⟨_, rfl, hspells⟩
  · rintro ⟨⟨hmatcher, hvalue, hmodifier⟩, hspells⟩
    obtain ⟨m₁, hcomparison, hspells⟩ := spells_append_iff.1 hspells
    obtain ⟨m₂, hgap, m₃, rfl, hspells⟩ := spells_append_iff.1 hspells
    exact ⟨comparison, m₁, ⟨hmatcher, spells_map_stored_iff.1 hcomparison⟩, (), _,
      ⟨hgap, solid_of_attributeValue hvalue⟩, value, m₃, ⟨rfl, hvalue⟩, modifier,
      ⟨rfl, rfl, rfl⟩, hmodifier, hspells⟩

def tailPieces (test : Option AttributeTest) : List Piece :=
  test.toList.flatMap (AttributeTest.pieces .free) ++ [.mark .rightBracket]

theorem spells_tail_some {test : AttributeTest} :
    Spells (tailPieces (some test)) tokens rest ↔
      Spells (test.pieces .free ++ [.mark .rightBracket]) tokens rest := by
  simp [tailPieces]

/-- A comparison begins with a delimiter, and never with a bar and a name behind it. -/
theorem head_of_spells_test {dialect : Dialect} {test : AttributeTest}
    (htest : test.WellFormed dialect) (h : Spells (tailPieces (some test)) tokens rest) :
    (∃ c span ts, tokens = .atom (.delim c) span :: ts) ∧ barThen Token.isIdent tokens = false := by
  obtain ⟨⟨kind, spelling⟩, value, modifier⟩ := test
  obtain ⟨⟨hspelled, -⟩, -⟩ := htest
  rw [spells_tail_some, AttributeTest.pieces, List.append_assoc, spells_append_iff] at h
  obtain ⟨middle, hspelling, -⟩ := h
  rw [spells_map_stored_iff] at hspelling
  subst hspelling
  refine ⟨?_, ?_⟩
  · obtain ⟨c, span, ts, -, rfl⟩ := exists_head_of_spelled hspelled
    exact ⟨c, span, _, rfl⟩
  · by_cases hkind : kind = .dashMatch
    · subst hkind
      obtain ⟨bar, _, -, htail, rfl⟩ := List.forall₂_cons_left_iff.1 hspelled
      obtain ⟨equals, _, hequals, -, rfl⟩ := List.forall₂_cons_left_iff.1 htail
      obtain ⟨span, rfl⟩ := Token.isDelim_iff.1 hequals
      simp [barThen, Token.isIdent]
    · obtain ⟨c, span, ts, hc, rfl⟩ := exists_head_of_spelled hspelled
      apply barThen_cons_of_not_bar
      -- only one comparison begins with a bar
      simp only [Token.isDelim, decide_eq_false_iff_not]
      rintro rfl
      exact hkind (head?_symbol_injective hc)

theorem matches_attributeTail_iff {dialect : Dialect} {test : Option AttributeTest} :
    (attributeTail dialect).Matches tokens test rest ↔
      (∀ t ∈ test, t.WellFormed dialect) ∧ Spells (tailPieces test) tokens rest := by
  simp only [attributeTail, matches_bind_iff, matches_optional_iff, matches_token_iff]
  constructor
  · rintro ⟨_, _, ⟨bracket, rfl, rfl, hbracket⟩ | ⟨-, rfl, rfl⟩, h⟩
    · obtain ⟨span, rfl⟩ := Token.isRightBracket_iff.1 hbracket
      obtain ⟨rfl, rfl⟩ := matches_pure_iff.1 h
      exact ⟨by simp, span, _, rfl, rfl⟩
    · obtain ⟨test, rfl, hmatches⟩ := matches_map_iff.1 h
      obtain ⟨htest, hspells⟩ := matches_attributeTest_iff.1 hmatches
      exact ⟨by simpa using htest, spells_tail_some.2 hspells⟩
  · rintro ⟨htest, hspells⟩
    cases test with
    | none =>
        obtain ⟨span, _, rfl, rfl⟩ := hspells
        exact ⟨_, _, .inl ⟨_, rfl, rfl, rfl⟩, matches_pure_iff.2 ⟨rfl, rfl⟩⟩
    | some test =>
        have hmatches := matches_attributeTest_iff.2 ⟨htest test rfl, spells_tail_some.1 hspells⟩
        obtain ⟨⟨c, span, ts, rfl⟩, -⟩ := head_of_spells_test (htest test rfl) hspells
        exact ⟨none, _, .inr ⟨refuses_token_cons_iff.2 rfl, rfl, rfl⟩,
          matches_map_iff.2 ⟨test, rfl, hmatches⟩⟩

theorem solid_of_spells_tail {dialect : Dialect} {test : Option AttributeTest}
    (htest : ∀ t ∈ test, t.WellFormed dialect) (h : Spells (tailPieces test) tokens rest) :
    Solid tokens := by
  cases test with
  | none =>
      obtain ⟨span, _, rfl, -⟩ := h
      simp [Token.isInsignificant]
  | some test =>
      obtain ⟨⟨c, span, ts, rfl⟩, -⟩ := head_of_spells_test (htest test rfl) h
      simp [Token.isInsignificant]

theorem barThen_eq_false_of_spells_tail {dialect : Dialect} {test : Option AttributeTest}
    (htest : ∀ t ∈ test, t.WellFormed dialect)
    (h : Spells (.gap false :: tailPieces test) tokens rest) :
    barThen Token.isIdent tokens = false := by
  obtain ⟨blank, middle, rfl, hblank, -, h⟩ := h
  cases blank with
  | cons t ts =>
      have ht := hblank t List.mem_cons_self
      have hbar : t.isDelim '|' = false := by
        match t with
        | .function name arguments span => rfl
        | .atom a span => cases a <;> first | rfl | cases ht
      exact barThen_cons_of_not_bar hbar
  | nil =>
      cases test with
      | none =>
          obtain ⟨span, _, rfl, rfl⟩ := h
          exact barThen_cons_of_not_bar rfl
      | some test => exact (head_of_spells_test (htest test rfl) h).2

theorem spells_attributeSelector_iff {selector : AttributeSelector} :
    Spells (selector.pieces .free) tokens rest ↔
      ∃ m₁ m₂, Spells [.mark .leftBracket, .gap false] tokens m₁ ∧
        Spells selector.name.pieces m₁ m₂ ∧
          Spells (.gap false :: tailPieces selector.test) m₂ rest := by
  have h : selector.pieces .free = [.mark .leftBracket, .gap false] ++
      (selector.name.pieces ++ (.gap false :: tailPieces selector.test)) := rfl
  rw [h, spells_append_iff]
  constructor
  · rintro ⟨m₁, hopen, h⟩
    obtain ⟨m₂, hname, htail⟩ := spells_append_iff.1 h
    exact ⟨m₁, m₂, hopen, hname, htail⟩
  · rintro ⟨m₁, m₂, hopen, hname, htail⟩
    exact ⟨m₁, hopen, hname.append htail⟩

/-- What `p` reads behind an opening bracket and blank text. -/
def inBrackets {α : Type} (p : Production α) : Production α := do
  let _ ← token Token.isLeftBracket
  skip
  p

theorem matches_inBrackets_iff {α : Type} {p : Production α} {a : α} :
    (inBrackets p).Matches tokens a rest ↔
      ∃ middle, Spells [.mark .leftBracket, .gap false] tokens middle ∧ Solid middle ∧
        p.Matches middle a rest := by
  simp only [inBrackets, matches_bind_iff, matches_token_iff, matches_skip_iff_spells]
  constructor
  · rintro ⟨_, _, ⟨rfl, hbracket⟩, _, middle, ⟨hgap, hsolid⟩, h⟩
    obtain ⟨span, rfl⟩ := Token.isLeftBracket_iff.1 hbracket
    exact ⟨middle, ⟨span, _, rfl, hgap⟩, hsolid, h⟩
  · rintro ⟨middle, ⟨span, _, rfl, hgap⟩, hsolid, h⟩
    exact ⟨_, _, ⟨rfl, rfl⟩, (), middle, ⟨hgap, hsolid⟩, h⟩

theorem refuses_inBrackets {α : Type} {p : Production α} {middle : List Token}
    (hopen : Spells [.mark .leftBracket, .gap false] tokens middle) (hsolid : Solid middle)
    (h : p.Refuses middle) : (inBrackets p).Refuses tokens := by
  obtain ⟨span, m, rfl, hgap⟩ := hopen
  have hbracket : (token Token.isLeftBracket).Matches (.atom .leftBracket span :: m)
      (.atom .leftBracket span) m := matches_token_iff.2 ⟨rfl, rfl⟩
  have hskip : skip.Matches m () middle := matches_skip_iff_spells.2 ⟨hgap, hsolid⟩
  rw [inBrackets, hbracket.refuses_bind_iff, hskip.refuses_bind_iff]
  exact h

def closeBracket (dialect : Dialect) (name : AttributeName) : Production AttributeSelector := do
  skip
  let test ← attributeTail dialect
  return ⟨name, test⟩

theorem matches_closeBracket_iff {dialect : Dialect} {name : AttributeName}
    {selector : AttributeSelector} :
    (closeBracket dialect name).Matches tokens selector rest ↔
      selector.name = name ∧ (∀ test ∈ selector.test, test.WellFormed dialect) ∧
        Spells (.gap false :: tailPieces selector.test) tokens rest := by
  obtain ⟨name', test⟩ := selector
  simp only [closeBracket, matches_bind_iff, matches_skip_iff_spells, matches_attributeTail_iff,
    matches_pure_iff, AttributeSelector.mk.injEq]
  constructor
  · rintro ⟨_, _, ⟨hgap, -⟩, _, _, ⟨htest, htail⟩, ⟨rfl, rfl⟩, rfl⟩
    exact ⟨rfl, htest, spells_cons_iff.2 ⟨_, hgap, htail⟩⟩
  · rintro ⟨rfl, htest, h⟩
    obtain ⟨_, hgap, htail⟩ := spells_cons_iff.1 h
    exact ⟨(), _, ⟨hgap, solid_of_spells_tail htest htail⟩, test, _, ⟨htest, htail⟩, ⟨rfl, rfl⟩,
      rfl⟩

theorem standardAttribute_eq (dialect : Dialect) :
    standardAttribute dialect = inBrackets (do
      let name ← qualifiedName
      closeBracket dialect (.qualified name)) := rfl

theorem wellFormed_of_not_position {dialect : Dialect} {selector : AttributeSelector}
    (hname : selector.name.WellFormed dialect)
    (htest : ∀ test ∈ selector.test, test.WellFormed dialect)
    (hposition : selector.name.isPosition = false) : selector.WellFormed dialect :=
  ⟨hname, htest, fun h => absurd (hposition.symm.trans h) (by decide)⟩

theorem matches_standardAttribute_iff {dialect : Dialect} {selector : AttributeSelector} :
    (standardAttribute dialect).Matches tokens selector rest ↔
      (∃ name, selector.name = .qualified name) ∧ selector.WellFormed dialect ∧
        Spells (selector.pieces .free) tokens rest := by
  simp only [standardAttribute_eq, matches_inBrackets_iff, matches_bind_iff,
    matches_qualifiedName_iff, matches_closeBracket_iff, spells_attributeSelector_iff]
  constructor
  · rintro ⟨m₁, hopen, -, name, m₂, ⟨hname, hspells, -⟩, hselector, htest, htail⟩
    refine ⟨⟨name, hselector⟩, wellFormed_of_not_position ?_ htest ?_, m₁, m₂, hopen, ?_, htail⟩
    · rw [hselector]
      exact hname
    · rw [hselector]
      rfl
    · rw [hselector]
      exact hspells
  · rintro ⟨⟨name, hselector⟩, ⟨hname, htest, -⟩, m₁, m₂, hopen, hspells, htail⟩
    rw [hselector] at hname hspells
    obtain ⟨t, ts, rfl, ht⟩ := beginsName_of_spells_qualifiedName hname hspells
    exact ⟨_, hopen, solid_of_beginsName ht, name, m₂,
      ⟨hname, hspells, fun _ => barThen_eq_false_of_spells_tail htest htail⟩, hselector, htest,
      htail⟩

/-! ## Attribute selectors of the extended dialect -/

theorem bracketedSubject_eq (accept : Token → Bool) :
    bracketedSubject accept = inBrackets (do
      let subject ← token accept
      skip
      return subject) := rfl

theorem matches_bracketedSubject_iff {accept : Token → Bool} {t : Token} :
    (bracketedSubject accept).Matches tokens t rest ↔
      ∃ middle, Spells [.mark .leftBracket, .gap false] tokens (t :: middle) ∧
        Solid (t :: middle) ∧ accept t = true ∧ Spells [.gap false] middle rest ∧ Solid rest := by
  simp only [bracketedSubject_eq, matches_inBrackets_iff, matches_bind_iff, matches_token_iff,
    matches_skip_iff_spells, matches_pure_iff]
  constructor
  · rintro ⟨_, hopen, hsolid, _, middle, ⟨rfl, ht⟩, _, _, ⟨hgap, hsolid'⟩, rfl, rfl⟩
    exact ⟨middle, hopen, hsolid, ht, hgap, hsolid'⟩
  · rintro ⟨middle, hopen, hsolid, ht, hgap, hsolid'⟩
    exact ⟨_, hopen, hsolid, t, middle, ⟨rfl, ht⟩, (), rest, ⟨hgap, hsolid'⟩, rfl, rfl⟩

theorem refuses_bracketedSubject {accept : Token → Bool} {t : Token} {middle : List Token}
    (hopen : Spells [.mark .leftBracket, .gap false] tokens (t :: middle))
    (hsolid : t.isInsignificant = false) (h : accept t = false) :
    (bracketedSubject accept).Refuses tokens := by
  rw [bracketedSubject_eq]
  apply refuses_inBrackets hopen (solid_cons_iff.2 hsolid)
  rw [refuses_bind_iff, refuses_token_cons_iff]
  exact .inl h

/-- An accepted token in brackets, compared with a value or not. -/
def subjectSelector (accept : Token → Bool) (name : Token → AttributeName) :
    Production AttributeSelector := do
  let t ← bracketedSubject accept
  let test ← attributeTail .extended
  return ⟨name t, test⟩

theorem matches_subjectSelector_iff {accept : Token → Bool} (name : Token → AttributeName)
    (hpieces : ∀ t, (name t).pieces = [.stored t])
    (hwell : ∀ t, (name t).WellFormed .extended ↔ accept t = true)
    (hposition : ∀ t, (name t).isPosition = false)
    (haccept : ∀ t, accept t = true → t.isInsignificant = false) {selector : AttributeSelector} :
    (subjectSelector accept name).Matches tokens selector rest ↔
      (∃ t, selector.name = name t) ∧ selector.WellFormed .extended ∧
        Spells (selector.pieces .free) tokens rest := by
  obtain ⟨name', test⟩ := selector
  simp only [subjectSelector, matches_bind_iff, matches_bracketedSubject_iff,
    matches_attributeTail_iff, matches_pure_iff, spells_attributeSelector_iff,
    AttributeSelector.mk.injEq]
  constructor
  · rintro ⟨t, _, ⟨middle, hopen, -, ht, hgap, -⟩, _, _, ⟨htest, htail⟩, ⟨rfl, rfl⟩, rfl⟩
    refine ⟨⟨t, rfl⟩, wellFormed_of_not_position ((hwell t).2 ht) htest (hposition t), t :: middle,
      middle, hopen, ?_, spells_cons_iff.2 ⟨_, hgap, htail⟩⟩
    rw [hpieces]
    exact ⟨middle, rfl, rfl⟩
  · rintro ⟨⟨t, rfl⟩, ⟨hname, htest, -⟩, m₁, m₂, hopen, hspells, htail⟩
    have ht := (hwell t).1 hname
    rw [hpieces] at hspells
    obtain ⟨_, rfl, rfl⟩ := hspells
    obtain ⟨m₃, hgap, htail⟩ := spells_cons_iff.1 htail
    exact ⟨t, m₃, ⟨_, hopen, solid_cons_iff.2 (haccept t ht), ht, hgap,
      solid_of_spells_tail htest htail⟩, test, rest, ⟨htest, htail⟩, ⟨rfl, rfl⟩, rfl⟩

theorem matches_atKeywordSelector_iff {selector : AttributeSelector} :
    (subjectSelector Token.isAtKeyword .atKeyword).Matches tokens selector rest ↔
      (∃ t, selector.name = .atKeyword t) ∧ selector.WellFormed .extended ∧
        Spells (selector.pieces .free) tokens rest := by
  refine matches_subjectSelector_iff .atKeyword (fun _ => rfl) (fun _ => ?_) (fun _ => rfl) ?_
  · exact and_iff_right rfl
  · intro t ht
    obtain ⟨_, _, rfl⟩ := Token.isAtKeyword_iff.1 ht
    rfl

theorem matches_functionSelector_iff {selector : AttributeSelector} :
    (subjectSelector Token.isFunction .xpath).Matches tokens selector rest ↔
      (∃ t, selector.name = .xpath t) ∧ selector.WellFormed .extended ∧
        Spells (selector.pieces .free) tokens rest := by
  refine matches_subjectSelector_iff .xpath (fun _ => rfl) (fun _ => ?_) (fun _ => rfl) ?_
  · exact and_iff_right rfl
  · intro t ht
    obtain ⟨_, _, _, rfl⟩ := Token.isFunction_iff.1 ht
    rfl

theorem refuses_subjectSelector {accept : Token → Bool} {name : Token → AttributeName}
    {t : Token} {middle : List Token}
    (hopen : Spells [.mark .leftBracket, .gap false] tokens (t :: middle))
    (hsolid : t.isInsignificant = false) (h : accept t = false) :
    (subjectSelector accept name).Refuses tokens := by
  rw [subjectSelector, refuses_bind_iff]
  exact .inl (refuses_bracketedSubject hopen hsolid h)

/-- A position in brackets, which is not compared with anything. -/
def positionSelector : Production AttributeSelector := do
  let index ← bracketedSubject isPosition
  let _ ← token Token.isRightBracket
  return ⟨.position index, none⟩

theorem exists_number_of_isPosition {t : Token} (h : isPosition t = true) :
    ∃ numeric span, t = .atom (.number numeric) span := by
  match t with
  | .function name arguments span => cases h
  | .atom a span => cases a <;> first | exact ⟨_, _, rfl⟩ | cases h

theorem isInsignificant_of_isPosition {t : Token} (h : isPosition t = true) :
    t.isInsignificant = false := by
  obtain ⟨_, _, rfl⟩ := exists_number_of_isPosition h
  rfl

theorem matches_positionSelector_iff {selector : AttributeSelector} :
    positionSelector.Matches tokens selector rest ↔
      (∃ t, selector.name = .position t) ∧ selector.WellFormed .extended ∧
        Spells (selector.pieces .free) tokens rest := by
  simp only [positionSelector, matches_bind_iff, matches_bracketedSubject_iff, matches_token_iff,
    matches_pure_iff, spells_attributeSelector_iff]
  constructor
  · rintro ⟨t, _, ⟨middle, hopen, -, ht, hgap, -⟩, bracket, _, ⟨rfl, hbracket⟩, rfl, rfl⟩
    obtain ⟨span, rfl⟩ := Token.isRightBracket_iff.1 hbracket
    exact ⟨⟨t, rfl⟩, ⟨⟨rfl, ht⟩, by simp, fun _ => rfl⟩, t :: middle, middle, hopen,
      ⟨middle, rfl, rfl⟩, spells_cons_iff.2 ⟨_, hgap, span, _, rfl, rfl⟩⟩
  · obtain ⟨name, test⟩ := selector
    rintro ⟨⟨t, rfl⟩, ⟨⟨-, ht⟩, -, hposition⟩, m₁, m₂, hopen, ⟨_, rfl, rfl⟩, htail⟩
    obtain rfl : test = none := hposition rfl
    obtain ⟨m₃, hgap, span, _, rfl, rfl⟩ := spells_cons_iff.1 htail
    exact ⟨t, _, ⟨_, hopen, solid_cons_iff.2 (isInsignificant_of_isPosition ht), ht, hgap,
      by simp [Token.isInsignificant]⟩, _, _, ⟨rfl, rfl⟩, rfl, rfl⟩

theorem refuses_positionSelector {t : Token} {middle : List Token}
    (hopen : Spells [.mark .leftBracket, .gap false] tokens (t :: middle))
    (hsolid : t.isInsignificant = false) (h : isPosition t = false) :
    positionSelector.Refuses tokens := by
  rw [positionSelector, refuses_bind_iff]
  exact .inl (refuses_bracketedSubject hopen hsolid h)

theorem attributeSelector_extended_eq :
    attributeSelector .extended = firstOf [
      standardAttribute .extended,
      subjectSelector Token.isAtKeyword .atKeyword,
      positionSelector,
      subjectSelector Token.isFunction .xpath] := rfl

theorem refuses_standardAttribute {dialect : Dialect} {t : Token} {middle : List Token}
    (hopen : Spells [.mark .leftBracket, .gap false] tokens (t :: middle))
    (hsolid : t.isInsignificant = false) (h : beginsName t = false) :
    (standardAttribute dialect).Refuses tokens := by
  rw [standardAttribute_eq]
  apply refuses_inBrackets hopen (solid_cons_iff.2 hsolid)
  rw [refuses_bind_iff]
  exact .inl (refuses_qualifiedName_cons h)

theorem matches_extendedAttribute_iff {selector : AttributeSelector} :
    (attributeSelector .extended).Matches tokens selector rest ↔
      selector.WellFormed .extended ∧ Spells (selector.pieces .free) tokens rest := by
  simp only [attributeSelector_extended_eq, firstOf_cons, firstOf_nil, matches_orElse_iff,
    not_matches_fail, and_false, or_false, matches_standardAttribute_iff,
    matches_atKeywordSelector_iff, matches_positionSelector_iff, matches_functionSelector_iff]
  constructor
  · rintro (⟨-, h⟩ | ⟨-, ⟨-, h⟩ | ⟨-, ⟨-, h⟩ | ⟨-, -, h⟩⟩⟩) <;> exact h
  · rintro ⟨hwell, hspells⟩
    have hname := hwell.1
    obtain ⟨m₁, m₂, hopen, hsubject, -⟩ := spells_attributeSelector_iff.1 hspells
    obtain ⟨name, test⟩ := selector
    -- a form before the one of the name refuses the token that the name holds
    cases name with
    | qualified name => exact .inl ⟨⟨name, rfl⟩, hwell, hspells⟩
    | atKeyword t =>
        obtain ⟨_, rfl, rfl⟩ := hsubject
        obtain ⟨_, _, rfl⟩ := Token.isAtKeyword_iff.1 hname.2
        exact .inr ⟨refuses_standardAttribute hopen rfl rfl, .inl ⟨⟨_, rfl⟩, hwell, hspells⟩⟩
    | position t =>
        obtain ⟨_, rfl, rfl⟩ := hsubject
        obtain ⟨_, _, rfl⟩ := exists_number_of_isPosition hname.2
        exact .inr ⟨refuses_standardAttribute hopen rfl rfl,
          .inr ⟨refuses_subjectSelector hopen rfl rfl, .inl ⟨⟨_, rfl⟩, hwell, hspells⟩⟩⟩
    | xpath t =>
        obtain ⟨_, rfl, rfl⟩ := hsubject
        obtain ⟨_, _, _, rfl⟩ := Token.isFunction_iff.1 hname.2
        exact .inr ⟨refuses_standardAttribute hopen rfl rfl,
          .inr ⟨refuses_subjectSelector hopen rfl rfl,
            .inr ⟨refuses_positionSelector hopen rfl rfl, ⟨_, rfl⟩, hwell, hspells⟩⟩⟩

theorem matches_attributeSelector_iff {dialect : Dialect} {selector : AttributeSelector} :
    (attributeSelector dialect).Matches tokens selector rest ↔
      selector.WellFormed dialect ∧ Spells (selector.pieces .free) tokens rest := by
  cases dialect with
  | standard =>
      rw [attributeSelector, matches_standardAttribute_iff]
      constructor
      · exact fun h => h.2
      · rintro ⟨hselector, hspells⟩
        refine ⟨?_, hselector, hspells⟩
        obtain ⟨hname, -⟩ := hselector
        cases h : selector.name <;> simp_all [AttributeName.WellFormed]
  | extended => exact matches_extendedAttribute_iff

end Grammar

end CssSelectors
