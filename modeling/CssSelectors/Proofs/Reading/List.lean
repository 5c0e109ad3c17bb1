import CssSelectors.Grammar.Arguments
import CssSelectors.Proofs.Reading.Chain

/-!
# Reading selector lists

A list is read exactly where its selectors are spelled with commas between them, up to
the end of the input.
-/

namespace CssSelectors

namespace Grammar

open Production

variable {g : Grammar} {dialect : Dialect} {tokens rest : List Token}

/-! ## Selectors -/

theorem matches_relativeSelector_iff {s : Selector} :
    (relativeSelector g).Matches tokens s rest ↔
      ∃ c middle chain, s = .relative c chain ∧
        (optional (combinator g.dialect)).Matches tokens c middle ∧
          (complexSelector g).Matches middle chain rest := by
  simp only [relativeSelector, matches_bind_iff, matches_pure_iff]
  constructor
  · rintro ⟨c, middle, hc, chain, _, hchain, rfl, rfl⟩
    exact ⟨c, middle, chain, rfl, hc, hchain⟩
  · rintro ⟨c, middle, chain, rfl, hc, hchain⟩
    exact ⟨c, middle, hc, chain, rest, hchain, rfl, rfl⟩

theorem matches_selector_iff {s : Selector} :
    (selector g).Matches tokens s rest ↔
      (∃ chain, s = .complex chain ∧ (complexSelector g).Matches tokens chain rest) ∨
        (complexSelector g).Refuses tokens ∧ (relativeSelector g).Matches tokens s rest := by
  simp [selector, eq_comm]

theorem spells_of_matches_selector (hg : g.Sealed) (hsolid : Solid tokens) {s : Selector}
    (h : (selector g).Matches tokens s rest) :
    s.WellFormed g.dialect ∧ g.YieldsAll s.calls ∧ Spells (s.pieces .free) tokens rest := by
  rcases matches_selector_iff.1 h with ⟨chain, rfl, hchain⟩ | ⟨hrefuses, hrelative⟩
  · exact spells_of_matches_complexSelector hg hchain
  · obtain ⟨c, middle, chain, rfl, hc, hchain⟩ := matches_relativeSelector_iff.1 hrelative
    rcases matches_optional_iff.1 hc with ⟨c, rfl, hmatches⟩ | ⟨-, -, rfl⟩
    · obtain ⟨hwell, hyields, hspells'⟩ := spells_of_matches_complexSelector hg hchain
      obtain ⟨hcombinator, hspells, -⟩ := spells_of_matches_combinator hmatches
      rcases hcombinator with hoperator | hblank
      · refine ⟨⟨⟨c, rfl, hoperator⟩, hwell⟩, hyields, ?_⟩
        rw [Selector.pieces, Option.toList_some, List.flatMap_singleton]
        exact hspells.append hspells'
      · rw [pieces_of_isBlank hblank, spells_map_stored_iff] at hspells
        obtain ⟨t, ts, htokens⟩ := List.exists_cons_of_ne_nil
          (tokens_ne_nil_of_wellFormed (.inr hblank : c.WellFormed g.dialect))
        rw [hspells, htokens, List.cons_append, solid_cons_iff,
          hblank.2.1 t (by simp [htokens])] at hsolid
        cases hsolid
    · exact absurd hrefuses hchain.not_refuses

theorem refuses_complexSelector (h : beginsCompound tokens = false) :
    (complexSelector g).Refuses tokens := by
  rw [complexSelector, refuses_bind_iff]
  exact .inl (refuses_compound h)

theorem beginsCompound_of_isOperator {c : Combinator} (hc : c.IsOperator dialect)
    (h : Spells ([.gap false] ++ (c.tokens.map .stored ++ [.gap false])) tokens rest) :
    beginsCompound tokens = false := by
  rw [Bool.eq_false_iff]
  intro hbegins
  obtain ⟨symbol, hop, hspelled⟩ := hc
  obtain ⟨middle, hgap, hmiddle⟩ := spells_append_iff.1 h
  obtain ⟨after, hstored, -⟩ := spells_append_iff.1 hmiddle
  obtain rfl := (solid_of_beginsCompound hbegins).eq_of_spells_gap hgap
  obtain rfl := spells_map_stored_iff.1 hstored
  have hmatches : (spelled symbol).Matches (c.tokens ++ after) c.tokens after :=
    matches_spelled_iff.2 ⟨rfl, hspelled⟩
  exact hmatches.not_refuses (noOperator_of_beginsCompound hbegins _ hop)

theorem matches_selector (hg : g.Sealed) {s : Selector} (hs : s.WellFormed g.dialect)
    (hyields : g.YieldsAll s.calls) (h : Spells (s.pieces .free) tokens rest)
    (hrest : closes rest = true) : (selector g).Matches tokens s rest := by
  rw [matches_selector_iff]
  cases s with
  | complex chain => exact .inl ⟨chain, rfl, matches_complexSelector hg hs hyields h hrest⟩
  | relative c chain =>
      obtain ⟨⟨c, rfl, hc⟩, hchain⟩ := hs
      rw [Selector.pieces, Option.toList_some, List.flatMap_singleton] at h
      obtain ⟨middle, hspells, hspells'⟩ := spells_append_iff.1 h
      have hbegins := beginsCompound_of_spells_complex hchain hspells'
      have hcombinator : (combinator g.dialect).Matches tokens c middle :=
        matches_combinator (.inl hc) hspells (solid_of_beginsCompound hbegins)
          (noOperator_of_beginsCompound hbegins)
      have hmatches := matches_complexSelector hg hchain hyields hspells' hrest
      have hspells : Spells (c.pieces .free [.gap false]) tokens middle := hspells
      rw [pieces_of_isOperator hc] at hspells
      right
      refine ⟨refuses_complexSelector (beginsCompound_of_isOperator hc hspells), ?_⟩
      exact matches_relativeSelector_iff.2 ⟨some c, middle, chain, rfl,
        matches_optional_iff.2 (.inl ⟨c, rfl, hcombinator⟩), hmatches⟩

theorem spells_selector_dropWhile {s : Selector} (hs : s.WellFormed dialect)
    (h : Spells (s.pieces .free) tokens rest) :
    Spells (s.pieces .free) (tokens.dropWhile Token.isInsignificant) rest := by
  cases s with
  | complex chain =>
      have hsolid := solid_of_beginsCompound (beginsCompound_of_spells_complex hs h)
      rw [hsolid]
      exact h
  | relative c chain =>
      obtain ⟨⟨c, rfl, hc⟩, hchain⟩ := hs
      rw [Selector.pieces, Option.toList_some, List.flatMap_singleton,
        show c.pieces .free Layout.free.operator = _ from pieces_of_isOperator hc _] at h ⊢
      simp only [spells_append_iff, spells_map_stored_iff] at h ⊢
      obtain ⟨after, ⟨_, ⟨blank, middle, rfl, hblank, -, rfl⟩, m, rfl, hgap⟩, hspells⟩ := h
      obtain ⟨symbol, hop, hspelled⟩ := hc
      rw [dropWhile_append_of_solid hblank (hspelled.solid_append (Dialect.symbol_ne_nil hop))]
      exact ⟨after, ⟨_, spells_gap_self, m, rfl, hgap⟩, hspells⟩

/-! ## Commas -/

def comma : Production Token := do
  skip
  token Token.isComma

def nextItem {α : Type} (item : Production α) : Production (Option α) := do
  match ← optional comma with
  | none => return none
  | some _ => do
    skip
    some <$> item

theorem selectorList_eq (g : Grammar) :
    selectorList g = (do
      let first ← selector g
      let others ← iterate (nextItem (selector g))
      return first :: others) := rfl

theorem matches_comma_iff {t : Token} :
    comma.Matches tokens t rest ↔
      t.isComma = true ∧ Spells [.gap false, .stored t] tokens rest := by
  simp only [comma, matches_bind_iff, matches_skip_iff_spells, matches_token_iff]
  constructor
  · rintro ⟨_, middle, ⟨hgap, -⟩, rfl, ht⟩
    exact ⟨ht, spells_cons_iff.2 ⟨_, hgap, rest, rfl, rfl⟩⟩
  · rintro ⟨ht, h⟩
    obtain ⟨_, hgap, m, rfl, rfl⟩ := spells_cons_iff.1 h
    have hsolid : Solid (t :: m) := by
      obtain ⟨span, rfl⟩ := Token.isComma_iff.1 ht
      rfl
    exact ⟨(), _, ⟨hgap, hsolid⟩, rfl, ht⟩

theorem matches_nextItem_some_iff {α : Type} {item : Production α} {a : α} :
    (nextItem item).Matches tokens (some a) rest ↔
      ∃ middle, Spells [.gap false, .mark .comma, .gap false] tokens middle ∧ Solid middle ∧
        item.Matches middle a rest := by
  simp only [nextItem, matches_bind_iff, matches_optional_iff, matches_comma_iff]
  constructor
  · rintro ⟨_, m, ⟨t, rfl, ht, hcomma⟩ | ⟨-, rfl, rfl⟩, h⟩
    · simp only [matches_bind_iff, matches_skip_iff_spells, matches_map_iff] at h
      obtain ⟨_, middle, ⟨hgap, hsolid⟩, _, ha, hitem⟩ := h
      obtain rfl := Option.some.inj ha
      obtain ⟨span, rfl⟩ := Token.isComma_iff.1 ht
      obtain ⟨m', hgap', _, rfl, rfl⟩ := spells_cons_iff.1 hcomma
      exact ⟨middle, spells_cons_iff.2 ⟨_, hgap', span, _, rfl, hgap⟩, hsolid, hitem⟩
    · simp at h
  · rintro ⟨middle, h, hsolid, hitem⟩
    obtain ⟨_, hgap', span, m, rfl, hgap⟩ := spells_cons_iff.1 h
    have hcomma : Spells [.gap false, .stored (.atom .comma span)] tokens m :=
      spells_cons_iff.2 ⟨_, hgap', m, rfl, rfl⟩
    refine ⟨_, m, .inl ⟨.atom .comma span, rfl, rfl, hcomma⟩, ?_⟩
    simp only [matches_bind_iff, matches_skip_iff_spells, matches_map_iff]
    exact ⟨(), middle, ⟨hgap, hsolid⟩, a, rfl, hitem⟩

theorem matches_nextItem_none_iff {α : Type} {item : Production α} :
    (nextItem item).Matches tokens none rest ↔ comma.Refuses tokens ∧ tokens = rest := by
  simp only [nextItem, matches_bind_iff, matches_optional_iff]
  constructor
  · rintro ⟨_, m, ⟨t, rfl, -⟩ | ⟨hrefuses, rfl, rfl⟩, h⟩
    · simp at h
    · exact ⟨hrefuses, (matches_pure_iff.1 h).2⟩
  · rintro ⟨hrefuses, rfl⟩
    exact ⟨none, tokens, .inr ⟨hrefuses, rfl, rfl⟩, by simp⟩

theorem shortens_nextItem (hg : g.Sealed) : Shortens (nextItem (selector g)) := by
  intro tokens s rest h
  obtain ⟨middle, hcomma, hsolid, hs⟩ := matches_nextItem_some_iff.1 h
  obtain ⟨-, -, hspells⟩ := spells_of_matches_selector hg hsolid hs
  have hlt := hcomma.length_le
  have hle := hspells.length_le
  simp only [List.countP_cons, List.countP_nil, Piece.isToken, if_true] at hlt
  omega

theorem spells_piecesOfTail_cons_iff {s : Selector} {others : List Selector} :
    Spells (Selector.piecesOfTail .free (s :: others)) tokens rest ↔
      ∃ middle after, Spells [.gap false, .mark .comma, .gap false] tokens middle ∧
        Spells (s.pieces .free) middle after ∧
          Spells (Selector.piecesOfTail .free others) after rest := by
  have h : Selector.piecesOfTail .free (s :: others) = [.gap false, .mark .comma, .gap false] ++
      (s.pieces .free ++ Selector.piecesOfTail .free others) := rfl
  rw [h, spells_append_iff]
  simp only [spells_append_iff]
  constructor
  · rintro ⟨middle, hcomma, after, hs, hothers⟩
    exact ⟨middle, after, hcomma, hs, hothers⟩
  · rintro ⟨middle, after, hcomma, hs, hothers⟩
    exact ⟨middle, hcomma, after, hs, hothers⟩

theorem spells_of_rounds (hg : g.Sealed) {others : List Selector}
    (h : Rounds (nextItem (selector g)) tokens others rest) :
    (∀ s ∈ others, s.WellFormed g.dialect ∧ g.YieldsAll s.calls) ∧
      Spells (Selector.piecesOfTail .free others) tokens rest := by
  induction h with
  | nil => exact ⟨by simp, rfl⟩
  | cons head _ ih =>
      obtain ⟨hall, htail⟩ := ih
      obtain ⟨middle, hcomma, hsolid, hs⟩ := matches_nextItem_some_iff.1 head
      obtain ⟨hwell, hyields, hspells⟩ := spells_of_matches_selector hg hsolid hs
      refine ⟨List.forall_mem_cons.2 ⟨⟨hwell, hyields⟩, hall⟩, ?_⟩
      exact spells_piecesOfTail_cons_iff.2 ⟨middle, _, hcomma, hspells, htail⟩

theorem spells_of_matches_tail (hg : g.Sealed) {others : List Selector}
    (h : (iterate (nextItem (selector g))).Matches tokens others rest) :
    (∀ s ∈ others, s.WellFormed g.dialect ∧ g.YieldsAll s.calls) ∧
      Spells (Selector.piecesOfTail .free others) tokens rest := by
  obtain ⟨middle, hrounds, hstop⟩ := (shortens_nextItem hg).rounds h
  obtain ⟨-, rfl⟩ := matches_nextItem_none_iff.1 hstop
  exact spells_of_rounds hg hrounds

theorem closes_of_atEnd (h : Token.atEnd tokens = true) : closes tokens = true := by
  unfold Token.atEnd at h
  unfold closes
  cases hdrop : tokens.dropWhile Token.isInsignificant with
  | nil => rfl
  | cons t ts =>
      rw [hdrop] at h
      have ht : t.isEof = true := h
      simp [ht]

theorem refuses_comma_of_atEnd (h : Token.atEnd tokens = true) : comma.Refuses tokens := by
  apply refuses_of_forall_not_matches (by simp [comma])
  intro t rest hmatches
  obtain ⟨ht, hspells⟩ := matches_comma_iff.1 hmatches
  obtain ⟨span, rfl⟩ := Token.isComma_iff.1 ht
  obtain ⟨_, ⟨blank, _, rfl, hblank, -, rfl⟩, m, rfl, -⟩ := spells_cons_iff.1 hspells
  have hsolid : Solid (.atom .comma span :: m) := rfl
  rw [Token.atEnd, dropWhile_append_of_solid hblank hsolid] at h
  cases h

theorem closes_of_spells_tail {others : List Selector} (hrest : Token.atEnd rest = true)
    (h : Spells (Selector.piecesOfTail .free others) tokens rest) : closes tokens = true := by
  cases others with
  | nil =>
      obtain rfl := h
      exact closes_of_atEnd hrest
  | cons s others =>
      obtain ⟨middle, after, hcomma, -⟩ := spells_piecesOfTail_cons_iff.1 h
      obtain ⟨blank, _, rfl, hblank, -, span, m, rfl, -⟩ := hcomma
      have hsolid : Solid (.atom .comma span :: m) := rfl
      rw [closes, dropWhile_append_of_solid hblank hsolid]
      rfl

theorem matches_tail (hg : g.Sealed) {others : List Selector}
    (hall : ∀ s ∈ others, s.WellFormed g.dialect ∧ g.YieldsAll s.calls)
    (h : Spells (Selector.piecesOfTail .free others) tokens rest)
    (hrest : Token.atEnd rest = true) :
    (iterate (nextItem (selector g))).Matches tokens others rest := by
  induction others generalizing tokens with
  | nil =>
      obtain rfl := h
      exact Matches.iterate_nil (matches_nextItem_none_iff.2 ⟨refuses_comma_of_atEnd hrest, rfl⟩)
  | cons s others ih =>
      obtain ⟨⟨hwell, hyields⟩, hall⟩ := List.forall_mem_cons.1 hall
      obtain ⟨middle, after, hcomma, hspells, hothers⟩ := spells_piecesOfTail_cons_iff.1 h
      have hs : (nextItem (selector g)).Matches tokens (some s) after := by
        have hskipped := spells_selector_dropWhile hwell hspells
        refine matches_nextItem_some_iff.2 ⟨_, ?_, solid_dropWhile,
          matches_selector hg hwell hyields hskipped (closes_of_spells_tail hrest hothers)⟩
        obtain ⟨_, hgap, span, m, rfl, hgap'⟩ := spells_cons_iff.1 hcomma
        exact spells_cons_iff.2 ⟨_, hgap, span, m, rfl, hgap'.gap_dropWhile⟩
      exact (shortens_nextItem hg).iterate_cons hs (ih hall hothers)

/-! ## Whole lists -/

/-- What a list has to be for the grammar to read it. -/
structure Accepts (g : Grammar) (list : List Selector) : Prop where
  nonempty : list ≠ []
  wellFormed : ∀ s ∈ list, s.WellFormed g.dialect
  yields : g.YieldsAll (Selector.callsOfList list)

theorem accepts_cons_iff {s : Selector} {others : List Selector} :
    Accepts g (s :: others) ↔
      (s.WellFormed g.dialect ∧ g.YieldsAll s.calls) ∧
        ∀ s ∈ others, s.WellFormed g.dialect ∧ g.YieldsAll s.calls := by
  constructor
  · rintro ⟨-, hwell, hyields⟩
    have hall : ∀ r ∈ s :: others, r.WellFormed g.dialect ∧ g.YieldsAll r.calls :=
      fun r hr => ⟨hwell r hr, yieldsAll_flatMap.1 hyields r hr⟩
    exact List.forall_mem_cons.1 hall
  · rintro ⟨hs, hothers⟩
    have hall : ∀ r ∈ s :: others, r.WellFormed g.dialect ∧ g.YieldsAll r.calls :=
      List.forall_mem_cons.2 ⟨hs, hothers⟩
    exact ⟨by simp, fun r hr => (hall r hr).1, yieldsAll_flatMap.2 fun r hr => (hall r hr).2⟩

theorem spells_of_matches_wholeList (hg : g.Sealed) {list : List Selector}
    (h : (wholeList g).Matches tokens list rest) :
    Accepts g list ∧ Spells ([.gap false] ++ Selector.piecesOfItems .free list) tokens rest := by
  simp only [wholeList, selectorList_eq, matches_bind_iff, matches_skip_iff_spells,
    matches_pure_iff] at h
  obtain ⟨_, middle, ⟨hgap, hsolid⟩, s, after, hs, others, _, hothers, rfl, rfl⟩ := h
  obtain ⟨hwell, hyields, hspells⟩ := spells_of_matches_selector hg hsolid hs
  obtain ⟨hall, htail⟩ := spells_of_matches_tail hg hothers
  exact ⟨accepts_cons_iff.2 ⟨⟨hwell, hyields⟩, hall⟩, hgap.append (hspells.append htail)⟩

theorem matches_wholeList (hg : g.Sealed) {list : List Selector} (hlist : Accepts g list)
    (h : Spells ([.gap false] ++ Selector.piecesOfItems .free list) tokens rest)
    (hrest : Token.atEnd rest = true) : (wholeList g).Matches tokens list rest := by
  cases list with
  | nil => exact absurd rfl hlist.nonempty
  | cons s others =>
      obtain ⟨⟨hwell, hyields⟩, hall⟩ := accepts_cons_iff.1 hlist
      obtain ⟨middle, hgap, hitems⟩ := spells_append_iff.1 h
      obtain ⟨after, hspells, htail⟩ := spells_append_iff.1 hitems
      have hs : (selector g).Matches (middle.dropWhile Token.isInsignificant) s after :=
        matches_selector hg hwell hyields (spells_selector_dropWhile hwell hspells)
          (closes_of_spells_tail hrest htail)
      simp only [wholeList, selectorList_eq, matches_bind_iff, matches_skip_iff_spells,
        matches_pure_iff]
      exact ⟨(), _, ⟨hgap.gap_dropWhile, solid_dropWhile⟩, s, after, hs, others, rest,
        matches_tail hg hall htail hrest, rfl, rfl⟩

end Grammar

end CssSelectors
