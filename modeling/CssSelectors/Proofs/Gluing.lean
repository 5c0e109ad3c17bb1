import CssSelectors.Proofs.Acceptance

/-!
# Gluing chains

A combinator that delimiters spell joins any two chains, with or without blank text on
its sides, but for one case: behind a lone asterisk the first bar of a column combinator
makes a namespace of the asterisk, and nothing is read at all.
-/

namespace CssSelectors

open Production

variable {dialect : Dialect} {tokens middle rest : List Token} {c : Combinator}

/-! ## Joined chains -/

namespace Complex

def join : Complex → Combinator → Complex → Complex
  | .last left, c, right => .link left c right
  | .link left d next, c, right => .link left d (next.join c right)

def rightmost : Complex → Compound
  | .last left => left
  | .link _ _ right => right.rightmost

theorem compounds_join (left : Complex) (c : Combinator) (right : Complex) :
    (left.join c right).compounds = left.compounds ++ right.compounds := by
  induction left using Complex.compounds.induct with
  | case1 left => rfl
  | case2 left d next ih => simp [join, compounds, ih]

theorem combinators_join (left : Complex) (c : Combinator) (right : Complex) :
    (left.join c right).combinators = left.combinators ++ c :: right.combinators := by
  induction left using Complex.compounds.induct with
  | case1 left => rfl
  | case2 left d next ih => simp [join, combinators, ih]

theorem calls_join (left : Complex) (c : Combinator) (right : Complex) :
    (left.join c right).calls = left.calls ++ right.calls := by
  rw [calls, compounds_join, List.flatMap_append]
  rfl

theorem WellFormed.join {left right : Complex} (hleft : left.WellFormed dialect)
    (hc : c.WellFormed dialect) (hright : right.WellFormed dialect) :
    (left.join c right).WellFormed dialect := by
  induction left using Complex.compounds.induct with
  | case1 left => exact ⟨hleft, hc, hright⟩
  | case2 left d next ih =>
      obtain ⟨hfirst, hd, hnext⟩ := hleft
      exact ⟨hfirst, hd, ih hnext⟩

theorem spells_join {left right : Complex} {after : List Token}
    (hleft : Spells (left.pieces .free) tokens middle)
    (hc : Spells (c.pieces .free (Layout.free.behind left.rightmost c)) middle after)
    (hright : Spells (right.pieces .free) after rest) :
    Spells ((left.join c right).pieces .free) tokens rest := by
  induction left using Complex.compounds.induct generalizing tokens with
  | case1 left => exact hleft.append (hc.append hright)
  | case2 left d next ih =>
      obtain ⟨m₁, hfirst, hbehind⟩ := spells_append_iff.1 hleft
      obtain ⟨m₂, hd, hnext⟩ := spells_append_iff.1 hbehind
      exact hfirst.append (hd.append (ih hnext hc))

end Complex

/-- The text does not end within the tokens, and no blank text stands at their ends. -/
structure Tight (tokens : List Token) : Prop where
  inside : ∀ t ∈ tokens, t.isEof = false
  front : Solid tokens
  back : Solid tokens.reverse

theorem spells_of_parseTokens {options : Options} {chain : Complex} (htight : Tight tokens)
    (h : parseTokens options tokens = .ok [.complex chain]) :
    (Grammar.ofLevels options.dialect options.maxDepth).Accepts [.complex chain] ∧
      Spells (chain.pieces .free) tokens [] := by
  obtain ⟨haccepts, hspells⟩ := parseTokens_eq_ok_iff.1 h
  have hbefore : Token.beforeEof tokens = tokens := by
    rw [← List.append_nil tokens, Token.beforeEof_append_of_forall htight.inside]
    rfl
  rw [hbefore] at hspells
  obtain ⟨m, hitems, blank, _, rfl, hblank, -, rfl⟩ := spells_piecesOfList_iff.1 hspells
  obtain ⟨m', hgap, hitems⟩ := spells_append_iff.1 hitems
  obtain rfl := htight.front.eq_of_spells_gap hgap
  have hchain : Spells (chain.pieces .free) tokens (blank ++ []) := by
    simpa [Selector.piecesOfItems, Selector.piecesOfTail, Selector.pieces] using hitems
  obtain ⟨taken, rfl, htaken⟩ := spells_iff_exists_taken.1 hchain
  have hnil : blank = [] := by
    cases hreverse : blank.reverse with
    | nil => simpa using hreverse
    | cons t ts =>
        have ht : t.isInsignificant = true := hblank t (by
          rw [← List.mem_reverse, hreverse]
          exact List.mem_cons_self)
        have hback := htight.back
        rw [List.append_nil, List.reverse_append, hreverse, List.cons_append, solid_cons_iff,
          ht] at hback
        cases hback
  subst hnil
  rw [List.append_nil, List.append_nil]
  exact ⟨haccepts, htaken⟩

/-! ## The asterisk before a column combinator -/

/-- A column combinator directly behind a lone asterisk. -/
def Blocked (left : Complex) (c : Combinator) (blank : List Token) : Prop :=
  left.rightmost.isLoneAsterisk = true ∧ c.kind = .column ∧ blank = []

namespace Grammar

variable {g : Grammar}

theorem refuses_typeSelector_asterisk {asterisk bar bar' : Token}
    (hasterisk : asterisk.isDelim '*' = true) (hbar : bar.isDelim '|' = true)
    (hbar' : bar'.isDelim '|' = true) :
    (typeSelector dialect).Refuses (asterisk :: bar :: bar' :: rest) := by
  obtain ⟨_, rfl⟩ := Token.isDelim_iff.1 hasterisk
  obtain ⟨_, rfl⟩ := Token.isDelim_iff.1 hbar
  obtain ⟨_, rfl⟩ := Token.isDelim_iff.1 hbar'
  apply refuses_of_forall_not_matches not_overflows_typeSelector
  intro selector rest' hmatches
  obtain ⟨hselector, hspells, hends⟩ := matches_typeSelector_iff.1 hmatches
  match selector with
  | .universal none t =>
      obtain ⟨_, heq, rfl⟩ := hspells
      cases heq
      have hhead := hends _ rfl
      cases hhead
  | .universal (some ⟨none⟩) t =>
      obtain ⟨_, _, heq, -⟩ := hspells
      cases heq
  | .universal (some ⟨some value⟩) t =>
      obtain ⟨_, heq, _, _, heq', _, heq'', -⟩ := hspells
      cases heq
      cases heq'
      cases heq''
      cases hselector.2
  | .name ⟨none, name⟩ =>
      obtain ⟨_, heq, -⟩ := hspells
      cases heq
      cases hselector.2
  | .name ⟨some ⟨none⟩, name⟩ =>
      obtain ⟨_, _, heq, -⟩ := hspells
      cases heq
  | .name ⟨some ⟨some value⟩, name⟩ =>
      obtain ⟨_, heq, _, _, heq', _, heq'', -⟩ := hspells
      cases heq
      cases heq'
      cases heq''
      cases hselector.2
  | .atKeyword t =>
      obtain ⟨_, heq, -⟩ := hspells
      cases heq
      cases hselector.2
  | .xpath t =>
      obtain ⟨_, heq, -⟩ := hspells
      cases heq
      cases hselector.2

theorem refuses_compound_asterisk {left : Compound} (hleft : left.isLoneAsterisk = true)
    (hwell : left.WellFormed dialect) {bar bar' : Token} (hbar : bar.isDelim '|' = true)
    (hbar' : bar'.isDelim '|' = true)
    (h : Spells (left.pieces .free) tokens (bar :: bar' :: rest)) :
    (compound g).Refuses tokens := by
  obtain ⟨asterisk, rfl⟩ := Compound.eq_of_isLoneAsterisk hleft
  have hasterisk : asterisk.isDelim '*' = true := (hwell.typeSelector _ rfl).2
  obtain ⟨_, rfl, rfl⟩ := h
  apply refuses_compound_of_refuses (refuses_typeSelector_asterisk hasterisk hbar hbar')
  obtain ⟨span, rfl⟩ := Token.isDelim_iff.1 hasterisk
  simp [beginsPart, Token.isHash, Token.isDelim, Token.isLeftBracket, Token.isColon]

theorem not_closes_of_spells {before : List Piece} {right : Complex} (hc : c.WellFormed dialect)
    (hbefore : Fills before [.gap false]) (hspells : Spells (c.pieces .free before) tokens middle)
    (hright : right.WellFormed dialect) (h : Spells (right.pieces .free) middle rest) :
    closes tokens = false := by
  rw [Bool.eq_false_iff]
  intro hcloses
  rcases hc with hc | hc
  · have hfills := (Layout.Within.refl Fills.compatible .free).combinator hbefore c _ _ hspells
    rw [pieces_of_isOperator hc] at hfills
    obtain ⟨symbol, hop, hspelled⟩ := hc
    simp only [spells_append_iff, spells_map_stored_iff] at hfills
    obtain ⟨_, ⟨blank, _, rfl, hblank, -, rfl⟩, m, rfl, -⟩ := hfills
    have hno : NoOperator dialect ((blank ++ (c.tokens ++ m)).dropWhile Token.isInsignificant) :=
      noOperator_of_closes hcloses
    have hmatches : (spelled symbol).Matches (c.tokens ++ m) c.tokens m :=
      matches_spelled_iff.2 ⟨rfl, hspelled⟩
    rw [dropWhile_append_of_solid hblank
      (hspelled.solid_append (Dialect.symbol_ne_nil hop))] at hno
    exact hmatches.not_refuses (hno _ hop)
  · rw [pieces_of_isBlank hc, spells_map_stored_iff] at hspells
    have hbegins := beginsCompound_of_spells_complex hright h
    have hend := beginsCompound_of_closes hcloses
    have hsolid := solid_of_beginsCompound hbegins
    rw [hspells, dropWhile_append_of_solid hc.2.1 hsolid, hbegins] at hend
    cases hend

/-- Behind a chain that ends in a lone asterisk, two bars keep every reading from closing. -/
theorem not_closes_of_matches (hg : g.Sealed) {left chain : Complex} {bar bar' : Token}
    {behind : List Token} (hleft : left.WellFormed g.dialect) (hyields : g.YieldsAll left.calls)
    (hlone : left.rightmost.isLoneAsterisk = true) (hbar : bar.isDelim '|' = true)
    (hbar' : bar'.isDelim '|' = true)
    (h : Spells (left.pieces .free) tokens (bar :: bar' :: behind))
    (hmatches : (complexSelector g).Matches tokens chain rest) : closes rest = false := by
  induction left using Complex.compounds.induct generalizing tokens chain with
  | case1 left =>
      obtain ⟨first, m, hfirst, -⟩ := (matches_complexSelector_iff hg).1 hmatches
      have hrefuses : (compound g).Refuses tokens :=
        refuses_compound_asterisk hlone hleft hbar hbar' h
      exact absurd hrefuses hfirst.not_refuses
  | case2 left c right ih =>
      obtain ⟨hwell, hcombinator, hright⟩ := hleft
      simp only [Complex.calls, Complex.compounds, List.flatMap_cons, yieldsAll_append] at hyields
      obtain ⟨m₁, hspells, hrest⟩ := spells_append_iff.1 h
      obtain ⟨m₂, hc, hspells'⟩ := spells_append_iff.1 hrest
      have hcompound : (compound g).Matches tokens left m₁ := (matches_compound_iff hg).2
        ⟨hwell, hyields.1, hspells, compoundEnds_of_spells_combinator hcombinator hc⟩
      obtain ⟨first, m, hfirst, hcases⟩ := (matches_complexSelector_iff hg).1 hmatches
      obtain ⟨rfl, rfl⟩ := hcompound.unique hfirst
      have hbehind : Fills (Layout.free.behind left c) [.gap false] := by
        rw [behind_free]
        exact Fills.gap_of_gap _
      rcases hcases with ⟨-, rfl, -⟩ | ⟨c', right', after, -, hc', hright'⟩
      · exact not_closes_of_spells hcombinator hbehind hc hright hspells'
      · have hbegins := beginsCompound_of_spells_complex hright hspells'
        have hfills := (Layout.Within.refl Fills.compatible .free).combinator hbehind c _ _ hc
        have hunique := matches_combinator hcombinator hfills (solid_of_beginsCompound hbegins)
          (noOperator_of_beginsCompound hbegins)
        obtain ⟨rfl, rfl⟩ := hunique.unique hc'
        exact ih hright hyields.2 hlone hspells' hright'

/-- No list is read from a chain that ends in a lone asterisk with two bars behind it. -/
theorem not_matches_wholeList (hg : g.Sealed) {left : Complex} {bar bar' : Token}
    {behind : List Token} (hleft : left.WellFormed g.dialect) (hyields : g.YieldsAll left.calls)
    (hlone : left.rightmost.isLoneAsterisk = true) (hbar : bar.isDelim '|' = true)
    (hbar' : bar'.isDelim '|' = true)
    (h : Spells (left.pieces .free) tokens (bar :: bar' :: behind)) {list : List Selector}
    (hend : Token.atEnd rest = true) : ¬ (wholeList g).Matches tokens list rest := by
  intro hmatches
  have hbegins := beginsCompound_of_spells_complex hleft h
  have hsolid := solid_of_beginsCompound hbegins
  simp only [wholeList, selectorList_eq, matches_bind_iff, matches_skip_iff] at hmatches
  obtain ⟨_, m, rfl, s, after, hs, others, _, hothers, hlist⟩ := hmatches
  obtain ⟨-, rfl⟩ := matches_pure_iff.1 hlist
  rw [hsolid] at hs
  have hcloses := closes_of_spells_tail hend (spells_of_matches_tail hg hothers).2
  rcases matches_selector_iff.1 hs with ⟨chain, rfl, hchain⟩ | ⟨hrefuses, hrelative⟩
  · rw [not_closes_of_matches hg hleft hyields hlone hbar hbar' h hchain] at hcloses
    cases hcloses
  · -- no combinator stands before the chain, so a relative selector is the chain alone
    obtain ⟨c, m, chain, rfl, hc, hchain⟩ := matches_relativeSelector_iff.1 hrelative
    rcases matches_optional_iff.1 hc with ⟨c, rfl, hcombinator⟩ | ⟨-, -, rfl⟩
    · have hno : NoOperator g.dialect (tokens.dropWhile Token.isInsignificant) := by
        rw [hsolid]
        exact noOperator_of_beginsCompound hbegins
      have hlt := consumes_combinator _ _ _ hcombinator
      rw [eq_dropWhile_of_matches_combinator hno hcombinator, hsolid] at hlt
      exact absurd hlt (Nat.lt_irrefl _)
    · exact absurd hrefuses hchain.not_refuses

end Grammar

/-! ## Glued chains -/

variable {options : Options} {A B w₁ w₂ : List Token} {left right : Complex}

theorem spells_operator_behind (hc : c.IsOperator dialect)
    (hw₁ : ∀ t ∈ w₁, t.isInsignificant = true) (hw₂ : ∀ t ∈ w₂, t.isInsignificant = true)
    (h : ¬ Blocked left c w₁) :
    Spells (c.pieces .free (Layout.free.behind left.rightmost c)) (w₁ ++ (c.tokens ++ (w₂ ++ B)))
      B := by
  rw [Grammar.pieces_of_isOperator hc, Grammar.behind_free]
  simp only [spells_append_iff, spells_map_stored_iff]
  refine ⟨c.tokens ++ (w₂ ++ B), ⟨w₁, _, rfl, hw₁, ?_, rfl⟩, w₂ ++ B, rfl, w₂, B, rfl, hw₂, by simp,
    rfl⟩
  intro hneeded hnil
  simp only [Bool.and_eq_true, decide_eq_true_eq] at hneeded
  exact h ⟨hneeded.1, hneeded.2, hnil⟩

theorem accepts_singleton_iff {g : Grammar} {chain : Complex} :
    g.Accepts [.complex chain] ↔ chain.WellFormed g.dialect ∧ g.YieldsAll chain.calls := by
  rw [Grammar.accepts_cons_iff]
  simp only [List.not_mem_nil, false_implies, implies_true, and_true]
  rfl

theorem parse_join (hA : Tight A) (hB : Tight B)
    (hleft : parseTokens options A = .ok [.complex left])
    (hright : parseTokens options B = .ok [.complex right]) (hc : c.IsOperator options.dialect)
    (hw₁ : ∀ t ∈ w₁, t.isInsignificant = true) (hw₂ : ∀ t ∈ w₂, t.isInsignificant = true)
    (h : ¬ Blocked left c w₁) :
    parseTokens options (A ++ (w₁ ++ (c.tokens ++ (w₂ ++ B)))) =
      .ok [.complex (left.join c right)] := by
  obtain ⟨haccepts, hspells⟩ := spells_of_parseTokens hA hleft
  obtain ⟨haccepts', hspells'⟩ := spells_of_parseTokens hB hright
  obtain ⟨hwell, hyields⟩ := accepts_singleton_iff.1 haccepts
  obtain ⟨hwell', hyields'⟩ := accepts_singleton_iff.1 haccepts'
  have hjoin : Spells ((left.join c right).pieces .free)
      (A ++ (w₁ ++ (c.tokens ++ (w₂ ++ B)))) [] :=
    Complex.spells_join (hspells.append_tokens _) (spells_operator_behind hc hw₁ hw₂ h) hspells'
  have hlist : Spells (Selector.piecesOfList .free [.complex (left.join c right)])
      (A ++ (w₁ ++ (c.tokens ++ (w₂ ++ B)))) [] := by
    refine spells_piecesOfList_iff.2 ⟨[], spells_gap_self.append ?_, spells_gap_self⟩
    simpa [Selector.piecesOfItems, Selector.piecesOfTail, Selector.pieces] using hjoin
  have hjoined : (Grammar.ofLevels options.dialect options.maxDepth).Accepts
      [.complex (left.join c right)] := by
    rw [accepts_singleton_iff, Complex.calls_join, Grammar.yieldsAll_append]
    exact ⟨hwell.join (.inl hc) hwell', hyields, hyields'⟩
  rw [parseTokens_eq_ok_iff, Token.beforeEof_of_spells hjoined.wellFormed hlist]
  exact ⟨hjoined, hlist⟩

theorem parse_ne_ok_of_blocked (hA : Tight A) (hleft : parseTokens options A = .ok [.complex left])
    (hc : c.IsOperator options.dialect) (h : Blocked left c w₁) (list : List Selector) :
    parseTokens options (A ++ (w₁ ++ (c.tokens ++ (w₂ ++ B)))) ≠ .ok list := by
  intro hok
  obtain ⟨hlone, hkind, rfl⟩ := h
  obtain ⟨bar, bar', htokens, hbar, hbar'⟩ := hc.eq_bars_of_column hkind
  obtain ⟨haccepts, hspells⟩ := spells_of_parseTokens hA hleft
  obtain ⟨hwell, hyields⟩ := accepts_singleton_iff.1 haccepts
  obtain ⟨rest, hmatches, hend⟩ := parseTokens_eq_ok_iff_matches.1 hok
  have hbehind := hspells.append_tokens (bar :: bar' :: (w₂ ++ B))
  rw [htokens] at hmatches
  exact Grammar.not_matches_wholeList (Grammar.sealed_ofLevels _ _) hwell hyields hlone hbar hbar'
    hbehind hend hmatches

/-- A combinator joins two chains, whatever blank text is on its sides, exactly if it is no
column combinator directly behind a lone asterisk; there, no list is read at all. -/
theorem parse_glued_iff (hA : Tight A) (hB : Tight B)
    (hleft : parseTokens options A = .ok [.complex left])
    (hright : parseTokens options B = .ok [.complex right]) (hc : c.IsOperator options.dialect)
    (hw₁ : ∀ t ∈ w₁, t.isInsignificant = true) (hw₂ : ∀ t ∈ w₂, t.isInsignificant = true) :
    ((∃ chain, parseTokens options (A ++ w₁ ++ c.tokens ++ w₂ ++ B) = .ok [.complex chain] ∧
        chain.compounds = left.compounds ++ right.compounds ∧
        chain.combinators = left.combinators ++ c :: right.combinators) ↔ ¬ Blocked left c w₁) ∧
      (Blocked left c w₁ →
        ∃ e, parseTokens options (A ++ w₁ ++ c.tokens ++ w₂ ++ B) = .error e) := by
  have hassoc : A ++ w₁ ++ c.tokens ++ w₂ ++ B = A ++ (w₁ ++ (c.tokens ++ (w₂ ++ B))) := by
    simp only [List.append_assoc]
  rw [hassoc]
  have hblocked : Blocked left c w₁ → ∀ list,
      parseTokens options (A ++ (w₁ ++ (c.tokens ++ (w₂ ++ B)))) ≠ .ok list :=
    parse_ne_ok_of_blocked hA hleft hc
  refine ⟨⟨?_, fun h => ?_⟩, fun h => ?_⟩
  · rintro ⟨chain, hok, -⟩ h
    exact hblocked h _ hok
  · exact ⟨left.join c right, parse_join hA hB hleft hright hc hw₁ hw₂ h,
      Complex.compounds_join .., Complex.combinators_join ..⟩
  · cases hresult : parseTokens options (A ++ (w₁ ++ (c.tokens ++ (w₂ ++ B)))) with
    | error e => exact ⟨e, rfl⟩
    | ok list => exact absurd hresult (hblocked h list)

theorem parse_glued_asterisk :
    ∃ e, parseTokens {} [.atom (.delim '*') ⟨0, 1⟩, .atom (.delim '|') ⟨1, 2⟩,
      .atom (.delim '|') ⟨2, 3⟩, .atom (.ident "b") ⟨3, 4⟩] = .error e := by
  let asterisk : Token := .atom (.delim '*') ⟨0, 1⟩
  let b : Token := .atom (.ident "b") ⟨3, 4⟩
  let c : Combinator := ⟨.column, [.atom (.delim '|') ⟨1, 2⟩, .atom (.delim '|') ⟨2, 3⟩]⟩
  have hA : Tight [asterisk] := ⟨by simp [asterisk, Token.isEof], rfl, rfl⟩
  have hB : Tight [b] := ⟨by simp [b, Token.isEof], rfl, rfl⟩
  have hleft : parseTokens {} [asterisk] =
      .ok [.complex (.last ⟨some (.universal none asterisk), [], []⟩)] := by with_unfolding_all rfl
  have hright : parseTokens {} [b] =
      .ok [.complex (.last ⟨some (.name ⟨none, b⟩), [], []⟩)] := by with_unfolding_all rfl
  have hc : c.IsOperator .standard := ⟨['|', '|'], by decide, .cons rfl (.cons rfl .nil)⟩
  have hglued := parse_glued_iff hA hB hleft hright hc (List.forall_mem_nil _)
    (List.forall_mem_nil _)
  exact hglued.2 ⟨rfl, rfl, rfl⟩

end CssSelectors
