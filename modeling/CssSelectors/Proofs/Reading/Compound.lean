import CssSelectors.Grammar.Selector
import CssSelectors.Proofs.Reading.Attribute

/-!
# Reading compound selectors

Subclasses and pseudo-classes are read exactly where they are spelled, whatever
follows. A compound is read where its parts are spelled and no further part follows.
-/

namespace CssSelectors

namespace Grammar

open Production

/-- The arguments of the function, whatever follows it. -/
def Yields (g : Grammar) (function : Token) (arguments : Arguments) : Prop :=
  ∀ rest, (g.arguments function).Matches rest arguments rest

/-- What the arguments of a function are read as is a matter of the function alone. -/
def Sealed (g : Grammar) : Prop :=
  ∀ function, (∃ arguments, g.Yields function arguments) ∨
    ∀ rest, (g.arguments function).Overflows rest

/-- All functions hold the arguments that the grammar yields for them. -/
def YieldsAll (g : Grammar) (calls : List (Token × Arguments)) : Prop :=
  ∀ call ∈ calls, g.Yields call.1 call.2

variable {g : Grammar} {tokens rest : List Token}

@[simp] theorem yieldsAll_nil : g.YieldsAll [] := by
  simp [YieldsAll]

@[simp] theorem yieldsAll_append {left right : List (Token × Arguments)} :
    g.YieldsAll (left ++ right) ↔ g.YieldsAll left ∧ g.YieldsAll right :=
  List.forall_mem_append

@[simp] theorem yieldsAll_flatMap {α : Type} {f : α → List (Token × Arguments)} {as : List α} :
    g.YieldsAll (as.flatMap f) ↔ ∀ a ∈ as, g.YieldsAll (f a) := by
  unfold YieldsAll
  constructor
  · intro h a ha call hcall
    exact h call (List.mem_flatMap.2 ⟨a, ha, hcall⟩)
  · intro h call hcall
    obtain ⟨a, ha, hcall⟩ := List.mem_flatMap.1 hcall
    exact h a ha call hcall

theorem Sealed.eq_of_matches (hg : g.Sealed) {function : Token} {arguments : Arguments}
    (h : (g.arguments function).Matches tokens arguments rest) :
    tokens = rest ∧ g.Yields function arguments := by
  rcases hg function with ⟨arguments', hyields⟩ | hdeep
  · obtain ⟨rfl, rfl⟩ := (hyields tokens).unique h
    exact ⟨rfl, hyields⟩
  · exact absurd (hdeep tokens) h.not_overflows

/-! ## Pseudo-classes -/

def functionCall (g : Grammar) : Production PseudoClass := do
  let function ← token Token.isFunction
  let arguments ← g.arguments function
  return .function function arguments

theorem pseudoClass_eq (g : Grammar) :
    pseudoClass g = (do
      let _ ← token Token.isColon
      firstOf [.plain <$> token Token.isIdent, functionCall g]) := rfl

theorem matches_functionCall_iff (hg : g.Sealed) {selector : PseudoClass} :
    (functionCall g).Matches tokens selector rest ↔
      ∃ function arguments, selector = .function function arguments ∧
        function.isFunction = true ∧ g.Yields function arguments ∧ tokens = function :: rest := by
  simp only [functionCall, matches_bind_iff, matches_token_iff, matches_pure_iff]
  constructor
  · rintro ⟨function, _, ⟨rfl, hfunction⟩, arguments, _, h, rfl, rfl⟩
    obtain ⟨rfl, hyields⟩ := hg.eq_of_matches h
    exact ⟨function, arguments, rfl, hfunction, hyields, rfl⟩
  · rintro ⟨function, arguments, rfl, hfunction, hyields, rfl⟩
    exact ⟨function, rest, ⟨rfl, hfunction⟩, arguments, rest, hyields rest, rfl, rfl⟩

theorem reads_pseudoClass (hg : g.Sealed) :
    (pseudoClass g).Reads (fun c => c.WellFormed ∧ g.YieldsAll c.calls) PseudoClass.pieces := by
  intro tokens selector rest
  simp only [pseudoClass_eq, matches_bind_iff, matches_token_iff, firstOf_cons, firstOf_nil,
    matches_orElse_iff, not_matches_fail, and_false, or_false, matches_map_iff, refuses_map_iff,
    matches_functionCall_iff hg]
  constructor
  · rintro ⟨colon, _, ⟨rfl, hcolon⟩, ⟨name, rfl, rfl, hname⟩ |
      ⟨-, function, arguments, rfl, hfunction, hyields, rfl⟩⟩
    · obtain ⟨span, rfl⟩ := Token.isColon_iff.1 hcolon
      exact ⟨⟨hname, by simp [PseudoClass.calls]⟩, span, _, rfl, _, rfl, rfl⟩
    · obtain ⟨span, rfl⟩ := Token.isColon_iff.1 hcolon
      refine ⟨⟨hfunction, ?_⟩, span, _, rfl, _, rfl, rfl⟩
      simpa [PseudoClass.calls, YieldsAll] using hyields
  · rintro ⟨⟨hselector, hcalls⟩, hspells⟩
    cases selector with
    | plain name =>
        obtain ⟨span, _, rfl, _, rfl, rfl⟩ := hspells
        exact ⟨_, _, ⟨rfl, rfl⟩, .inl ⟨name, rfl, rfl, hselector⟩⟩
    | function function arguments =>
        obtain ⟨span, _, rfl, _, rfl, rfl⟩ := hspells
        have hident : function.isIdent = false := by
          obtain ⟨_, _, _, rfl⟩ := Token.isFunction_iff.1 hselector
          rfl
        refine ⟨_, _, ⟨rfl, rfl⟩, .inr ⟨refuses_token_cons_iff.2 hident, function, arguments, rfl,
          hselector, ?_, rfl⟩⟩
        simpa [PseudoClass.calls, YieldsAll] using hcalls

theorem consumes_pseudoClass (hg : g.Sealed) : (pseudoClass g).Consumes := by
  apply (reads_pseudoClass hg).consumes
  intro selector _
  cases selector <;> simp [PseudoClass.pieces, Piece.isToken]

theorem refuses_pseudoClass_cons {t : Token} (h : t.isColon = false) :
    (pseudoClass g).Refuses (t :: rest) := by
  rw [pseudoClass_eq, refuses_bind_iff, refuses_token_cons_iff]
  exact .inl h

theorem refuses_pseudoClass_colon {t u : Token} (hu : u.isColon = true) :
    (pseudoClass g).Refuses (t :: u :: rest) := by
  obtain ⟨span, rfl⟩ := Token.isColon_iff.1 hu
  rw [pseudoClass_eq, refuses_bind_iff]
  cases ht : t.isColon with
  | false => exact .inl (refuses_token_cons_iff.2 ht)
  | true =>
      refine .inr ⟨t, _, matches_token_iff.2 ⟨rfl, ht⟩, ?_⟩
      simp [functionCall, Token.isIdent, Token.isFunction]

/-! ## Subclasses -/

/-- A token that may begin a subclass or a pseudo-element. -/
def beginsPart (t : Token) : Bool :=
  t.isHash || t.isDelim '.' || t.isLeftBracket || t.isColon

theorem beginsPart_iff {t : Token} :
    beginsPart t = true ↔
      (∃ value kind span, t = .atom (.hash value kind) span) ∨
        (∃ span, t = .atom (.delim '.') span) ∨ (∃ span, t = .atom .leftBracket span) ∨
          ∃ span, t = .atom .colon span := by
  simp only [beginsPart, Bool.or_eq_true, Token.isHash_iff, Token.isDelim_iff,
    Token.isLeftBracket_iff, Token.isColon_iff, or_assoc]

theorem isDelim_bar_of_beginsPart {t : Token} (h : beginsPart t = true) :
    t.isDelim '|' = false := by
  rcases beginsPart_iff.1 h with ⟨_, _, _, rfl⟩ | ⟨_, rfl⟩ | ⟨_, rfl⟩ | ⟨_, rfl⟩ <;> rfl

theorem isInsignificant_of_beginsPart {t : Token} (h : beginsPart t = true) :
    t.isInsignificant = false := by
  rcases beginsPart_iff.1 h with ⟨_, _, _, rfl⟩ | ⟨_, rfl⟩ | ⟨_, rfl⟩ | ⟨_, rfl⟩ <;> rfl

theorem refuses_typeSelector_of_beginsPart {dialect : Dialect} {t : Token}
    (h : beginsPart t = true) : (typeSelector dialect).Refuses (t :: rest) := by
  apply refuses_typeSelector
  rw [beginsType, barThen_cons_of_not_bar (isDelim_bar_of_beginsPart h)]
  rcases beginsPart_iff.1 h with ⟨_, _, _, rfl⟩ | ⟨_, rfl⟩ | ⟨_, rfl⟩ | ⟨_, rfl⟩ <;> rfl

theorem matches_classSelector_iff {name : Token} :
    classSelector.Matches tokens name rest ↔
      name.isIdent = true ∧ Spells [.mark (.delim '.'), .stored name] tokens rest := by
  simp only [classSelector, matches_bind_iff, matches_token_iff]
  constructor
  · rintro ⟨dot, _, ⟨rfl, hdot⟩, rfl, hname⟩
    obtain ⟨span, rfl⟩ := Token.isDelim_iff.1 hdot
    exact ⟨hname, span, _, rfl, _, rfl, rfl⟩
  · rintro ⟨hname, span, _, rfl, _, rfl, rfl⟩
    exact ⟨_, _, ⟨rfl, by simp [Token.isDelim]⟩, rfl, hname⟩

theorem refuses_classSelector_cons {t : Token} (h : t.isDelim '.' = false) :
    classSelector.Refuses (t :: rest) := by
  rw [classSelector, refuses_bind_iff, refuses_token_cons_iff]
  exact .inl h

theorem refuses_inBrackets_cons {α : Type} {p : Production α} {t : Token}
    (h : t.isLeftBracket = false) : (inBrackets p).Refuses (t :: rest) := by
  rw [inBrackets, refuses_bind_iff, refuses_token_cons_iff]
  exact .inl h

theorem refuses_attributeSelector_cons {dialect : Dialect} {t : Token}
    (h : t.isLeftBracket = false) : (attributeSelector dialect).Refuses (t :: rest) := by
  have hstandard (d : Dialect) : (standardAttribute d).Refuses (t :: rest) := by
    rw [standardAttribute_eq]
    exact refuses_inBrackets_cons h
  have hsubject (accept : Token → Bool) : (bracketedSubject accept).Refuses (t :: rest) := by
    rw [bracketedSubject_eq]
    exact refuses_inBrackets_cons h
  cases dialect with
  | standard => exact hstandard .standard
  | extended =>
      simp [attributeSelector_extended_eq, subjectSelector, positionSelector, hstandard, hsubject]

theorem refuses_subclass_cons {t : Token} (h : beginsPart t = false) :
    (subclass g).Refuses (t :: rest) := by
  simp only [beginsPart, Bool.or_eq_false_iff] at h
  obtain ⟨⟨⟨hhash, hdot⟩, hbracket⟩, hcolon⟩ := h
  simp [subclass, hhash, refuses_classSelector_cons hdot, refuses_attributeSelector_cons hbracket,
    refuses_pseudoClass_cons hcolon]

theorem refuses_subclass_colon {t u : Token} (ht : t.isColon = true) (hu : u.isColon = true) :
    (subclass g).Refuses (t :: u :: rest) := by
  obtain ⟨span, rfl⟩ := Token.isColon_iff.1 ht
  have hclass : classSelector.Refuses (.atom .colon span :: u :: rest) :=
    refuses_classSelector_cons rfl
  have hattribute : (attributeSelector g.dialect).Refuses (.atom .colon span :: u :: rest) :=
    refuses_attributeSelector_cons rfl
  simp [subclass, Token.isHash, hclass, hattribute, refuses_pseudoClass_colon hu]

theorem reads_subclass (hg : g.Sealed) :
    (subclass g).Reads (fun s => s.WellFormed g.dialect ∧ g.YieldsAll s.calls)
      (Subclass.pieces .free) := by
  intro tokens part rest
  simp only [subclass, firstOf_cons, firstOf_nil, matches_orElse_iff, not_matches_fail, and_false,
    or_false, matches_map_iff, refuses_map_iff, matches_token_iff, matches_classSelector_iff,
    matches_attributeSelector_iff, reads_pseudoClass hg tokens]
  constructor
  · rintro (⟨t, rfl, rfl, ht⟩ | ⟨-, ⟨name, rfl, hname, h⟩ | ⟨-, ⟨a, rfl, ha, h⟩ |
      ⟨-, c, rfl, hc, h⟩⟩⟩)
    · exact ⟨⟨ht, yieldsAll_nil⟩, _, rfl, rfl⟩
    · exact ⟨⟨hname, yieldsAll_nil⟩, h⟩
    · exact ⟨⟨ha, yieldsAll_nil⟩, h⟩
    · exact ⟨hc, h⟩
  · rintro ⟨⟨hpart, hcalls⟩, hspells⟩
    rcases part with t | name | a | c
    · obtain ⟨_, rfl, rfl⟩ := hspells
      exact .inl ⟨t, rfl, rfl, hpart⟩
    · have h := hspells
      obtain ⟨span, _, rfl, -⟩ := hspells
      exact .inr ⟨refuses_token_cons_iff.2 rfl, .inl ⟨name, rfl, hpart, h⟩⟩
    · have h := hspells
      obtain ⟨span, _, rfl, -⟩ := hspells
      exact .inr ⟨refuses_token_cons_iff.2 rfl, .inr ⟨refuses_classSelector_cons rfl,
        .inl ⟨a, rfl, hpart, h⟩⟩⟩
    · have h : Spells c.pieces tokens rest := hspells
      obtain ⟨span, middle, rfl⟩ : ∃ span middle, tokens = .atom .colon span :: middle := by
        cases c <;> exact ⟨_, _, hspells.choose_spec.choose_spec.1⟩
      exact .inr ⟨refuses_token_cons_iff.2 rfl, .inr ⟨refuses_classSelector_cons rfl,
        .inr ⟨refuses_attributeSelector_cons rfl, c, rfl, ⟨hpart, hcalls⟩, h⟩⟩⟩

theorem consumes_subclass (hg : g.Sealed) : (subclass g).Consumes := by
  apply (reads_subclass hg).consumes
  intro part _
  match part with
  | .id _ => simp [Subclass.pieces, Piece.isToken]
  | .className _ => simp [Subclass.pieces, Piece.isToken]
  | .attribute _ => simp [Subclass.pieces, AttributeSelector.pieces, Piece.isToken]
  | .pseudoClass c => cases c <;> simp [Subclass.pieces, PseudoClass.pieces, Piece.isToken]

/-! ## Pseudo-elements -/

theorem matches_manyPseudoClasses_iff (hg : g.Sealed) {selectors : List PseudoClass} :
    (many (pseudoClass g)).Matches tokens selectors rest ↔
      (∀ c ∈ selectors, c.WellFormed ∧ g.YieldsAll c.calls) ∧
        Spells (selectors.flatMap PseudoClass.pieces) tokens rest ∧ (pseudoClass g).Refuses rest :=
  (reads_pseudoClass hg).matches_many_iff (consumes_pseudoClass hg)

theorem matches_pseudoElement_iff (hg : g.Sealed) {element : PseudoElement} :
    (pseudoElement g).Matches tokens element rest ↔
      element.WellFormed ∧ g.YieldsAll element.calls ∧ Spells element.pieces tokens rest ∧
        (pseudoClass g).Refuses rest := by
  obtain ⟨first, others⟩ := element
  simp only [pseudoElement, matches_bind_iff, matches_token_iff, matches_pure_iff,
    matches_manyPseudoClasses_iff hg, PseudoElement.mk.injEq, PseudoElement.WellFormed,
    PseudoElement.calls, yieldsAll_append, yieldsAll_flatMap, PseudoElement.pieces,
    spells_mark_iff, spells_append_iff]
  constructor
  · rintro ⟨colon, m₁, ⟨rfl, hcolon⟩, c, m₂, hc, cs, _, ⟨hcs, hspells, hrefuses⟩, ⟨rfl, rfl⟩, rfl⟩
    obtain ⟨span, rfl⟩ := Token.isColon_iff.1 hcolon
    obtain ⟨⟨hwell, hyields⟩, hfirst⟩ := (reads_pseudoClass hg _ _ _).1 hc
    exact ⟨⟨hwell, fun c hc => (hcs c hc).1⟩, ⟨hyields, fun c hc => (hcs c hc).2⟩,
      ⟨span, m₁, rfl, m₂, hfirst, hspells⟩, hrefuses⟩
  · rintro ⟨⟨hwell, hwells⟩, ⟨hyields, hyieldss⟩, ⟨span, m₁, rfl, m₂, hfirst, hspells⟩, hrefuses⟩
    refine ⟨_, m₁, ⟨rfl, rfl⟩, first, m₂, ?_, others, rest, ⟨?_, hspells, hrefuses⟩,
      ⟨rfl, rfl⟩, rfl⟩
    · exact (reads_pseudoClass hg _ _ _).2 ⟨⟨hwell, hyields⟩, hfirst⟩
    · exact fun c hc => ⟨hwells c hc, hyieldss c hc⟩

theorem consumes_pseudoElement (hg : g.Sealed) : (pseudoElement g).Consumes := by
  intro tokens element rest h
  obtain ⟨-, -, hspells, -⟩ := (matches_pseudoElement_iff hg).1 h
  have := hspells.length_le
  simp only [PseudoElement.pieces, List.countP_cons, Piece.isToken, if_true] at this
  omega

theorem exists_colons_of_spells {element : PseudoElement}
    (h : Spells element.pieces tokens rest) :
    ∃ span span' ts, tokens = .atom .colon span :: .atom .colon span' :: ts := by
  obtain ⟨first, others⟩ := element
  cases first <;>
  · obtain ⟨span, _, rfl, span', _, rfl, -⟩ := h
    exact ⟨span, span', _, rfl⟩

theorem refuses_pseudoElement_cons {t : Token} (h : t.isColon = false) :
    (pseudoElement g).Refuses (t :: rest) := by
  rw [pseudoElement, refuses_bind_iff, refuses_token_cons_iff]
  exact .inl h

/-- Pseudo-elements are read as far as they are spelled, if no further pseudo-class follows
the last of them. -/
theorem matches_manyPseudoElements_iff (hg : g.Sealed) {elements : List PseudoElement} :
    (many (pseudoElement g)).Matches tokens elements rest ↔
      (∀ e ∈ elements, e.WellFormed ∧ g.YieldsAll e.calls) ∧
        Spells (elements.flatMap PseudoElement.pieces) tokens rest ∧
          (pseudoElement g).Refuses rest ∧ (elements ≠ [] → (pseudoClass g).Refuses rest) := by
  have hc := consumes_pseudoElement hg
  induction elements generalizing tokens with
  | nil =>
      constructor
      · intro h
        rcases hc.cases_many h with ⟨-, rfl, hrefuses⟩ | ⟨_, _, _, heq, -⟩
        · exact ⟨by simp, rfl, hrefuses, by simp⟩
        · cases heq
      · rintro ⟨-, rfl, hrefuses, -⟩
        exact hrefuses.many
  | cons element elements ih =>
      constructor
      · intro h
        rcases hc.cases_many h with ⟨heq, -⟩ | ⟨e, es, middle, heq, he, hes⟩
        · cases heq
        · cases heq
          obtain ⟨hwell, hyields, hfirst, hclass⟩ := (matches_pseudoElement_iff hg).1 he
          obtain ⟨hall, hspells, hrefuses, hlast⟩ := ih.1 hes
          refine ⟨List.forall_mem_cons.2 ⟨⟨hwell, hyields⟩, hall⟩, hfirst.append hspells, hrefuses,
            fun _ => ?_⟩
          cases elements with
          | nil =>
              obtain rfl := hspells
              exact hclass
          | cons e es => exact hlast (by simp)
      · rintro ⟨hall, hspells, hrefuses, hlast⟩
        obtain ⟨⟨hwell, hyields⟩, hall⟩ := List.forall_mem_cons.1 hall
        rw [List.flatMap_cons] at hspells
        obtain ⟨middle, hfirst, hrest⟩ := spells_append_iff.1 hspells
        have hclass : (pseudoClass g).Refuses middle := by
          cases elements with
          | nil =>
              obtain rfl := hrest
              exact hlast (by simp)
          | cons e es =>
              rw [List.flatMap_cons] at hrest
              obtain ⟨_, hnext, -⟩ := spells_append_iff.1 hrest
              obtain ⟨span, span', ts, rfl⟩ := exists_colons_of_spells hnext
              exact refuses_pseudoClass_colon rfl
        refine hc.many_cons ((matches_pseudoElement_iff hg).2 ⟨hwell, hyields, hfirst, hclass⟩) ?_
        exact ih.2 ⟨hall, hrest, hrefuses, fun _ => hlast (by simp)⟩

/-! ## Compounds -/

theorem beginsPart_of_spells_subclass {part : Subclass} {dialect : Dialect}
    (hpart : part.WellFormed dialect) (h : Spells (part.pieces .free) tokens rest) :
    ∃ t ts, tokens = t :: ts ∧ beginsPart t = true := by
  match part with
  | .id t =>
      obtain ⟨_, rfl, -⟩ := h
      have ht : t.isHash = true := hpart
      exact ⟨t, _, rfl, by simp [beginsPart, ht]⟩
  | .className name =>
      obtain ⟨span, _, rfl, -⟩ := h
      exact ⟨_, _, rfl, rfl⟩
  | .attribute selector =>
      obtain ⟨span, _, rfl, -⟩ := h
      exact ⟨_, _, rfl, rfl⟩
  | .pseudoClass (.plain _) =>
      obtain ⟨span, _, rfl, -⟩ := h
      exact ⟨_, _, rfl, rfl⟩
  | .pseudoClass (.function _ _) =>
      obtain ⟨span, _, rfl, -⟩ := h
      exact ⟨_, _, rfl, rfl⟩

/-- What stands behind the type selector of a compound, if anything does, is no part of it. -/
theorem beginsPart_of_spells_parts {c : Compound} {dialect : Dialect}
    (hc : c.WellFormed dialect) (hne : c.subclasses ≠ [] ∨ c.pseudoElements ≠ [])
    (h : Spells (c.subclasses.flatMap (Subclass.pieces .free) ++
      c.pseudoElements.flatMap PseudoElement.pieces) tokens rest) :
    ∃ t ts, tokens = t :: ts ∧ beginsPart t = true := by
  cases hparts : c.subclasses with
  | cons part parts =>
      rw [hparts, List.flatMap_cons, List.append_assoc] at h
      obtain ⟨_, hfirst, -⟩ := spells_append_iff.1 h
      exact beginsPart_of_spells_subclass (hc.subclasses part (by simp [hparts])) hfirst
  | nil =>
      cases helements : c.pseudoElements with
      | nil => simp [hparts, helements] at hne
      | cons element elements =>
          rw [hparts, helements, List.flatMap_nil, List.nil_append, List.flatMap_cons] at h
          obtain ⟨_, hfirst, -⟩ := spells_append_iff.1 h
          obtain ⟨span, span', ts, rfl⟩ := exists_colons_of_spells hfirst
          exact ⟨_, _, rfl, rfl⟩

structure CompoundEnds (g : Grammar) (c : Compound) (rest : List Token) : Prop where
  typeSelector : c.subclasses = [] → c.pseudoElements = [] →
    ∀ selector ∈ c.typeSelector, TypeEnds selector rest
  subclass : c.pseudoElements = [] → (subclass g).Refuses rest
  pseudoElement : (pseudoElement g).Refuses rest
  pseudoClass : c.pseudoElements ≠ [] → (pseudoClass g).Refuses rest

/-- The compound of the given parts, if there is one. -/
def ofParts (selector : Option TypeSelector) (parts : List Subclass)
    (elements : List PseudoElement) : Production Compound :=
  match Compound.ofParts? selector parts elements with
  | some compound => return compound
  | none => fail

theorem compound_eq (g : Grammar) :
    compound g = (do
      let selector ← optional (typeSelector g.dialect)
      let parts ← many (subclass g)
      let elements ← many (pseudoElement g)
      ofParts selector parts elements) := rfl

theorem matches_ofParts_iff {selector : Option TypeSelector} {parts : List Subclass}
    {elements : List PseudoElement} {c : Compound} :
    (ofParts selector parts elements).Matches tokens c rest ↔
      c = ⟨selector, parts, elements⟩ ∧ tokens = rest ∧
        (selector ≠ none ∨ parts ≠ [] ∨ elements ≠ []) := by
  unfold ofParts Compound.ofParts?
  cases selector <;> cases parts <;> cases elements <;> simp [eq_comm]

/-- The type selector of a compound, if it has one, is read before what it is spelled before. -/
theorem matches_optionalType_iff {dialect : Dialect} {selector : Option TypeSelector} :
    (optional (typeSelector dialect)).Matches tokens selector rest ↔
      (∀ s ∈ selector, s.WellFormed dialect ∧ TypeEnds s rest) ∧
        Spells (selector.toList.flatMap TypeSelector.pieces) tokens rest ∧
          (selector = none → (typeSelector dialect).Refuses tokens) := by
  rw [matches_optional_iff]
  cases selector with
  | none => simp [and_comm]
  | some s => simp [matches_typeSelector_iff, and_assoc, and_comm, and_left_comm]

theorem matches_compound_iff (hg : g.Sealed) {c : Compound} :
    (compound g).Matches tokens c rest ↔
      c.WellFormed g.dialect ∧ g.YieldsAll c.calls ∧ Spells (c.pieces .free) tokens rest ∧
        CompoundEnds g c rest := by
  simp only [compound_eq, matches_bind_iff, matches_optionalType_iff,
    (reads_subclass hg).matches_many_iff (consumes_subclass hg),
    matches_manyPseudoElements_iff hg, matches_ofParts_iff]
  obtain ⟨selector, parts, elements⟩ := c
  simp only [Compound.mk.injEq, Compound.calls, yieldsAll_append, yieldsAll_flatMap,
    Compound.pieces, spells_append_iff]
  constructor
  · rintro ⟨_, m₁, ⟨htype, hspells₁, hnone⟩, _, m₂, ⟨hparts, hspells₂, hpart⟩, _, _,
      ⟨helements, hspells₃, helement, hclass⟩, ⟨rfl, rfl, rfl⟩, rfl, hne⟩
    have hwell : Compound.WellFormed g.dialect ⟨selector, parts, elements⟩ :=
      ⟨fun s hs => (htype s hs).1, fun p hp => (hparts p hp).1, fun e he => (helements e he).1, hne⟩
    refine ⟨hwell, ⟨fun p hp => (hparts p hp).2, fun e he => (helements e he).2⟩,
      ⟨m₁, hspells₁, m₂, hspells₂, hspells₃⟩, ?_⟩
    constructor
    · rintro rfl rfl s hs
      obtain rfl := hspells₂
      obtain rfl := hspells₃
      exact (htype s hs).2
    · rintro rfl
      obtain rfl := hspells₃
      exact hpart
    · exact helement
    · exact hclass
  · rintro ⟨hwell, ⟨hyields, hyields'⟩, ⟨m₁, hspells₁, m₂, hspells₂, hspells₃⟩, hends⟩
    have hbehind : parts ≠ [] ∨ elements ≠ [] → ∃ t ts, m₁ = t :: ts ∧ beginsPart t = true :=
      fun hne => beginsPart_of_spells_parts hwell hne (hspells₂.append hspells₃)
    have htype : ∀ s ∈ selector, s.WellFormed g.dialect ∧ TypeEnds s m₁ := by
      intro s hs
      refine ⟨hwell.typeSelector s hs, ?_⟩
      by_cases hne : parts ≠ [] ∨ elements ≠ []
      · obtain ⟨t, ts, rfl, ht⟩ := hbehind hne
        apply typeEnds_of_head
        simpa using isDelim_bar_of_beginsPart ht
      · simp only [not_or, not_not] at hne
        obtain ⟨rfl, rfl⟩ := hne
        obtain rfl := hspells₂
        obtain rfl := hspells₃
        exact hends.typeSelector rfl rfl s hs
    have hnone : selector = none → (typeSelector g.dialect).Refuses tokens := by
      rintro rfl
      obtain rfl := hspells₁
      obtain ⟨t, ts, rfl, ht⟩ := hbehind (by simpa using hwell.nonempty)
      exact refuses_typeSelector_of_beginsPart ht
    have hpart : (subclass g).Refuses m₂ := by
      cases elements with
      | nil =>
          obtain rfl := hspells₃
          exact hends.subclass rfl
      | cons e es =>
          rw [List.flatMap_cons] at hspells₃
          obtain ⟨_, hfirst, -⟩ := spells_append_iff.1 hspells₃
          obtain ⟨span, span', ts, rfl⟩ := exists_colons_of_spells hfirst
          exact refuses_subclass_colon rfl rfl
    exact ⟨selector, m₁, ⟨htype, hspells₁, hnone⟩, parts, m₂,
      ⟨fun p hp => ⟨hwell.subclasses p hp, hyields p hp⟩, hspells₂, hpart⟩, elements, rest,
      ⟨fun e he => ⟨hwell.pseudoElements e he, hyields' e he⟩, hspells₃, hends.pseudoElement,
        hends.pseudoClass⟩, ⟨rfl, rfl, rfl⟩, rfl, hwell.nonempty⟩

/-! ## Where compounds begin and end -/

def beginsCompound (tokens : List Token) : Bool :=
  beginsType tokens || tokens.head?.any beginsPart

theorem beginsCompound_of_spells {dialect : Dialect} {c : Compound} (hc : c.WellFormed dialect)
    (h : Spells (c.pieces .free) tokens rest) : beginsCompound tokens = true := by
  rw [Compound.pieces, spells_append_iff] at h
  obtain ⟨middle, htype, hparts⟩ := h
  cases hselector : c.typeSelector with
  | some s =>
      rw [hselector, Option.toList_some, List.flatMap_singleton] at htype
      rw [beginsCompound, beginsType_of_spells (hc.typeSelector s hselector) htype, Bool.true_or]
  | none =>
      rw [hselector] at htype
      obtain rfl := htype
      obtain ⟨t, ts, rfl, ht⟩ :=
        beginsPart_of_spells_parts hc (by simpa [hselector] using hc.nonempty) hparts
      simp [beginsCompound, ht]

theorem refuses_attributeSelector_nil {dialect : Dialect} :
    (attributeSelector dialect).Refuses [] := by
  cases dialect <;> simp [attributeSelector, standardAttribute, bracketedSubject]

theorem refuses_subclass_of_head (h : ∀ t ∈ tokens.head?, beginsPart t = false) :
    (subclass g).Refuses tokens := by
  cases tokens with
  | cons t ts => exact refuses_subclass_cons (h t rfl)
  | nil => simp [subclass, classSelector, pseudoClass, refuses_attributeSelector_nil]

theorem refuses_pseudoClass_of_head (h : ∀ t ∈ tokens.head?, beginsPart t = false) :
    (pseudoClass g).Refuses tokens := by
  cases tokens with
  | nil => simp [pseudoClass]
  | cons t ts =>
      have ht := h t rfl
      simp only [beginsPart, Bool.or_eq_false_iff] at ht
      exact refuses_pseudoClass_cons ht.2

theorem refuses_pseudoElement_of_head (h : ∀ t ∈ tokens.head?, beginsPart t = false) :
    (pseudoElement g).Refuses tokens := by
  cases tokens with
  | nil => simp [pseudoElement]
  | cons t ts =>
      have ht := h t rfl
      simp only [beginsPart, Bool.or_eq_false_iff] at ht
      exact refuses_pseudoElement_cons ht.2

theorem compoundEnds_of_head {c : Compound} (h : ∀ t ∈ rest.head?, beginsPart t = false)
    (htype : c.subclasses = [] → c.pseudoElements = [] →
      ∀ selector ∈ c.typeSelector, TypeEnds selector rest) : CompoundEnds g c rest where
  typeSelector := htype
  subclass := fun _ => refuses_subclass_of_head h
  pseudoElement := refuses_pseudoElement_of_head h
  pseudoClass := fun _ => refuses_pseudoClass_of_head h

theorem refuses_compound_of_refuses (htype : (typeSelector g.dialect).Refuses tokens)
    (hpart : ∀ t ∈ tokens.head?, beginsPart t = false) : (compound g).Refuses tokens := by
  have hselector : (optional (typeSelector g.dialect)).Matches tokens none tokens := by
    rw [matches_optional_iff]
    exact .inr ⟨htype, rfl, rfl⟩
  rw [compound_eq, hselector.refuses_bind_iff,
    (refuses_subclass_of_head hpart).many.refuses_bind_iff,
    (refuses_pseudoElement_of_head hpart).many.refuses_bind_iff]
  simp [ofParts, Compound.ofParts?]

theorem refuses_compound (h : beginsCompound tokens = false) : (compound g).Refuses tokens := by
  rw [beginsCompound, Bool.or_eq_false_iff] at h
  obtain ⟨htype, hhead⟩ := h
  apply refuses_compound_of_refuses (refuses_typeSelector htype)
  intro t ht
  rw [Option.mem_def] at ht
  simpa [ht] using hhead

end Grammar

end CssSelectors
