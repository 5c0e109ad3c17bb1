import CssSelectors.Proofs.Places

/-!
# Blank text

A run of whitespace and comments between two tokens counts only by whether it is empty and
whether it holds whitespace, and a run at either end does not count at all. Tokens that are
spaced alike form the same selectors, but for the runs that stand for combinators.
-/

namespace CssSelectors

open Production

/-! ## Runs of blank text -/

/-- Both runs are empty or neither is, and both hold whitespace or neither does. -/
structure SameGap (run run' : List Token) : Prop where
  blank : ∀ t ∈ run, t.isInsignificant = true
  blank' : ∀ t ∈ run', t.isInsignificant = true
  eq_nil_iff : run = [] ↔ run' = []
  whitespace_iff : (∃ t ∈ run, t.isWhitespace = true) ↔ ∃ t ∈ run', t.isWhitespace = true

/-- The same tokens, with runs of blank text before them that count the same. The runs behind
the last token may be any. -/
inductive SpacedAlike : List Token → List Token → Prop
  | last {run run' : List Token} (blank : ∀ t ∈ run, t.isInsignificant = true)
      (blank' : ∀ t ∈ run', t.isInsignificant = true) : SpacedAlike run run'
  | next {run run' : List Token} {t : Token} {rest rest' : List Token} (gap : SameGap run run')
      (solid : t.isInsignificant = false) (alike : SpacedAlike rest rest') :
      SpacedAlike (run ++ t :: rest) (run' ++ t :: rest')

/-- The tokens are spaced alike from their first one on that is not blank. -/
def Respaced (tokens tokens' : List Token) : Prop :=
  SpacedAlike (tokens.dropWhile Token.isInsignificant) (tokens'.dropWhile Token.isInsignificant)

section Spacing

variable {run run' tokens tokens' rest : List Token} {t : Token}

theorem sameGap_nil : SameGap [] [] :=
  ⟨by simp, by simp, Iff.rfl, Iff.rfl⟩

theorem SameGap.symm (h : SameGap run run') : SameGap run' run :=
  ⟨h.blank', h.blank, h.eq_nil_iff.symm, h.whitespace_iff.symm⟩

namespace SpacedAlike

theorem symm (h : SpacedAlike tokens tokens') : SpacedAlike tokens' tokens := by
  induction h with
  | last hrun hrun' => exact .last hrun' hrun
  | next hgap ht _ ih => exact .next hgap.symm ht ih

theorem cons (ht : t.isInsignificant = false) (h : SpacedAlike tokens tokens') :
    SpacedAlike (t :: tokens) (t :: tokens') :=
  .next sameGap_nil ht h

/-- Before a token that is not blank, the other list has the same token behind a run of blank
text that counts the same. -/
theorem exists_of_append (hrun : ∀ t ∈ run, t.isInsignificant = true)
    (ht : t.isInsignificant = false) (h : SpacedAlike (run ++ t :: rest) tokens') :
    ∃ run' rest', tokens' = run' ++ t :: rest' ∧ SameGap run run' ∧ SpacedAlike rest rest' := by
  generalize htokens : run ++ t :: rest = tokens at h
  cases h with
  | last hblank _ =>
      have hmem : t ∈ tokens := by simp [← htokens]
      rw [hblank t hmem] at ht
      cases ht
  | @next run₀ run' u rest₀ rest' hgap hu halike =>
      have hsolid : Solid (t :: rest) := solid_cons_iff.2 ht
      have hsolid₀ : Solid (u :: rest₀) := solid_cons_iff.2 hu
      have hrun : run = run₀ := by
        rw [← takeWhile_append_of_solid hrun hsolid, htokens,
          takeWhile_append_of_solid hgap.blank hsolid₀]
      subst hrun
      obtain ⟨rfl, rfl⟩ := List.cons.inj (List.append_cancel_left htokens)
      exact ⟨run', rest', rfl, hgap, halike⟩

theorem exists_of_cons (ht : t.isInsignificant = false) (h : SpacedAlike (t :: rest) tokens') :
    ∃ rest', tokens' = t :: rest' ∧ SpacedAlike rest rest' := by
  obtain ⟨run', rest', rfl, hgap, halike⟩ :=
    exists_of_append (List.forall_mem_nil _) ht h
  obtain rfl := hgap.eq_nil_iff.1 rfl
  exact ⟨rest', rfl, halike⟩

theorem respaced (h : SpacedAlike tokens tokens') : Respaced tokens tokens' := by
  unfold Respaced
  cases h with
  | last hrun hrun' =>
      rw [List.dropWhile_eq_nil_iff.2 hrun, List.dropWhile_eq_nil_iff.2 hrun']
      exact .last (List.forall_mem_nil _) (List.forall_mem_nil _)
  | next hgap ht halike =>
      rw [dropWhile_append_of_solid hgap.blank (solid_cons_iff.2 ht),
        dropWhile_append_of_solid hgap.blank' (solid_cons_iff.2 ht)]
      exact halike.cons ht

theorem blank_right (h : SpacedAlike tokens tokens')
    (hblank : ∀ t ∈ tokens, t.isInsignificant = true) :
    ∀ t ∈ tokens', t.isInsignificant = true := by
  cases h with
  | last _ hrun' => exact hrun'
  | @next _ _ t _ _ _ ht _ =>
      rw [hblank t (by simp)] at ht
      cases ht

theorem isEof_right (h : SpacedAlike tokens tokens') (heof : ∀ t ∈ tokens, t.isEof = false) :
    ∀ t ∈ tokens', t.isEof = false := by
  induction h with
  | last _ hrun' => exact fun t ht => Token.isEof_eq_false (fun _ => rfl) (hrun' t ht)
  | next hgap _ _ ih =>
      obtain ⟨-, heof⟩ := List.forall_mem_append.1 heof
      obtain ⟨ht, hrest⟩ := List.forall_mem_cons.1 heof
      refine List.forall_mem_append.2 ⟨fun u hu => ?_, List.forall_mem_cons.2 ⟨ht, ih hrest⟩⟩
      exact Token.isEof_eq_false (fun _ => rfl) (hgap.blank' u hu)

end SpacedAlike

namespace Respaced

theorem symm (h : Respaced tokens tokens') : Respaced tokens' tokens :=
  SpacedAlike.symm h

theorem isEof_right (h : Respaced tokens tokens') (heof : ∀ t ∈ tokens, t.isEof = false) :
    ∀ t ∈ tokens', t.isEof = false := by
  have hdrop := SpacedAlike.isEof_right h fun t ht => heof t (List.dropWhile_subset _ ht)
  rw [← List.takeWhile_append_dropWhile (p := Token.isInsignificant) (l := tokens')]
  refine List.forall_mem_append.2 ⟨fun t ht => ?_, hdrop⟩
  exact Token.isEof_eq_false (fun _ => rfl) (all_insignificant_takeWhile t ht)

end Respaced

/-- A gap leaves the tokens the same from the first one on that is not blank. -/
theorem Spells.dropWhile_eq {needed : Bool} (h : Spells [.gap needed] tokens rest) :
    tokens.dropWhile Token.isInsignificant = rest.dropWhile Token.isInsignificant := by
  obtain ⟨blank, _, rfl, hblank, -, rfl⟩ := h
  exact List.dropWhile_append_of_pos hblank

theorem Anchored.exists_spells {pieces : List Piece} (hpieces : Anchored pieces)
    (h : Spells pieces tokens rest) (halike : SpacedAlike tokens tokens') :
    ∃ rest', Spells pieces tokens' rest' ∧ SpacedAlike rest rest' := by
  induction hpieces generalizing tokens tokens' with
  | nil =>
      obtain rfl := h
      exact ⟨tokens', rfl, halike⟩
  | token hpiece _ ih =>
      obtain ⟨middle, hfirst, hrest⟩ := spells_cons_iff.1 h
      obtain ⟨t, rfl, ht, hsame⟩ := hpiece.exists_token hfirst
      obtain ⟨middle', rfl, hmiddle⟩ := halike.exists_of_cons ht
      obtain ⟨rest', hrest', hbehind⟩ := ih hrest hmiddle
      exact ⟨rest', spells_cons_iff.2 ⟨middle', hsame middle', hrest'⟩, hbehind⟩
  | gap hpiece _ ih =>
      obtain ⟨blank, middle, rfl, hblank, hneeded, h⟩ := h
      obtain ⟨middle, hfirst, hrest⟩ := spells_cons_iff.1 h
      obtain ⟨t, rfl, ht, hsame⟩ := hpiece.exists_token hfirst
      obtain ⟨blank', middle', rfl, hgap, hmiddle⟩ := halike.exists_of_append hblank ht
      obtain ⟨rest', hrest', hbehind⟩ := ih hrest hmiddle
      refine ⟨rest', ⟨blank', t :: middle', rfl, hgap.blank', ?_, ?_⟩, hbehind⟩
      · exact fun hn hnil => hneeded hn (hgap.eq_nil_iff.2 hnil)
      · exact spells_cons_iff.2 ⟨middle', hsame middle', hrest'⟩

end Spacing

/-! ## Combinators without their blank text -/

/-- The combinator without its tokens if they are blank text. -/
def Combinator.unspaced (combinator : Combinator) : Combinator :=
  if combinator.isExplicit then combinator else ⟨combinator.kind, []⟩

def Complex.unspaced : Complex → Complex
  | .last left => .last left
  | .link left combinator right => .link left combinator.unspaced right.unspaced

/-- The selector without the blank text that stands for combinators. -/
def Selector.unspaced : Selector → Selector
  | .complex chain => .complex chain.unspaced
  | .relative combinator chain => .relative combinator chain.unspaced

theorem Combinator.IsBlank.unspaced_eq {combinator : Combinator} (h : combinator.IsBlank) :
    combinator.unspaced = ⟨.descendant, []⟩ := by
  rw [Combinator.unspaced, if_neg (by simp [h.isExplicit]), h.1]

theorem Complex.calls_unspaced (chain : Complex) : chain.unspaced.calls = chain.calls := by
  have hcompounds : chain.unspaced.compounds = chain.compounds := by
    induction chain using Complex.compounds.induct with
    | case1 left => rfl
    | case2 left combinator right ih => exact congrArg (List.cons left) ih
  rw [Complex.calls, hcompounds, Complex.calls]

theorem Selector.calls_unspaced (selector : Selector) :
    selector.unspaced.calls = selector.calls := by
  cases selector with
  | complex chain => exact chain.calls_unspaced
  | relative combinator chain => exact chain.calls_unspaced

theorem Selector.callsOfList_unspaced (list : List Selector) :
    callsOfList (list.map unspaced) = callsOfList list := by
  rw [callsOfList, List.flatMap_map]
  simp only [calls_unspaced]
  rfl

/-! ## Selectors in other spacing -/

section Selectors

variable {dialect : Dialect} {tokens tokens' middle rest : List Token}

theorem Combinator.IsOperator.exists_spells {combinator : Combinator}
    (hc : combinator.IsOperator dialect) {needed : Bool}
    (h : Spells (combinator.pieces .free [.gap needed]) tokens rest) (hrest : Solid rest)
    (halike : SpacedAlike tokens tokens') :
    ∃ rest', Spells (combinator.pieces .free [.gap needed]) tokens' rest' ∧
      SpacedAlike rest rest' := by
  rw [Grammar.pieces_of_isOperator hc, ← List.append_assoc] at h ⊢
  have hne : combinator.tokens.map Piece.stored ≠ [] := by
    rw [ne_eq, List.map_eq_nil_iff]
    exact Grammar.tokens_ne_nil_of_wellFormed (.inl hc : combinator.WellFormed dialect)
  have hanchored : Anchored (.gap needed :: (combinator.tokens.map .stored ++ [])) := by
    obtain ⟨symbol, -, hspelled⟩ := hc
    exact hspelled.gapless.anchored_gap hne needed .nil
  rw [List.append_nil] at hanchored
  obtain ⟨middle, hspells, hgap⟩ := spells_append_iff.1 h
  obtain ⟨middle', hspells', halike⟩ := hanchored.exists_spells hspells halike
  have hdrop : rest = middle.dropWhile Token.isInsignificant := by
    rw [hgap.dropWhile_eq, hrest]
  rw [hdrop]
  exact ⟨_, hspells'.append spells_gap_dropWhile, halike.respaced⟩

/-- A combinator behind a compound, up to the chain behind it. Blank text that stands for the
combinator gives way to the run that is in its place. -/
theorem Combinator.WellFormed.exists_spells {left : Compound} {combinator : Combinator}
    (hc : combinator.WellFormed dialect)
    (h : Spells (combinator.pieces .free (Layout.free.behind left combinator)) tokens rest)
    (hrest : Grammar.beginsCompound rest = true) (halike : SpacedAlike tokens tokens') :
    ∃ combinator' : Combinator, combinator'.WellFormed dialect ∧
      combinator'.unspaced = combinator.unspaced ∧
        ∃ rest', Spells (combinator'.pieces .free (Layout.free.behind left combinator')) tokens'
          rest' ∧ SpacedAlike rest rest' := by
  rcases hc with hoperator | hblank
  · refine ⟨combinator, .inl hoperator, rfl, ?_⟩
    rw [Grammar.behind_free] at h ⊢
    exact hoperator.exists_spells h (Grammar.solid_of_beginsCompound hrest) halike
  · rw [Grammar.pieces_of_isBlank hblank, spells_map_stored_iff] at h
    subst h
    obtain ⟨t, ts, rfl, ht, -⟩ := Grammar.head_of_beginsCompound hrest
    obtain ⟨run', ts', rfl, hgap, hts⟩ := halike.exists_of_append hblank.2.1 ht
    have hblank' : Combinator.IsBlank ⟨.descendant, run'⟩ :=
      ⟨rfl, hgap.blank', hgap.whitespace_iff.1 hblank.2.2⟩
    refine ⟨⟨.descendant, run'⟩, .inr hblank', ?_, t :: ts', ?_, hts.cons ht⟩
    · rw [hblank.unspaced_eq, hblank'.unspaced_eq]
    · rw [Grammar.pieces_of_isBlank hblank', spells_map_stored_iff]

theorem Complex.exists_spells {chain : Complex} (hchain : chain.WellFormed dialect)
    (h : Spells (chain.pieces .free) tokens rest) (halike : SpacedAlike tokens tokens') :
    ∃ chain' : Complex, chain'.WellFormed dialect ∧ chain'.unspaced = chain.unspaced ∧
      ∃ rest', Spells (chain'.pieces .free) tokens' rest' ∧ SpacedAlike rest rest' := by
  induction chain using Complex.compounds.induct generalizing tokens tokens' with
  | case1 left =>
      have hleft : left.WellFormed dialect := hchain
      exact ⟨.last left, hchain, rfl,
        (Compound.WellFormed.anchored hleft).exists_spells h halike⟩
  | case2 left combinator right ih =>
      obtain ⟨hleft, hcombinator, hright⟩ := hchain
      rw [Complex.pieces] at h
      obtain ⟨middle, hspells, hbehind⟩ := spells_append_iff.1 h
      obtain ⟨after, hc, hspellsRight⟩ := spells_append_iff.1 hbehind
      have hbegins := Grammar.beginsCompound_of_spells_complex hright hspellsRight
      obtain ⟨middle', hspells', halike⟩ :=
        (Compound.WellFormed.anchored hleft).exists_spells hspells halike
      obtain ⟨combinator', hcombinator', hunspaced, after', hc', halike⟩ :=
        hcombinator.exists_spells hc hbegins halike
      obtain ⟨right', hright', hunspacedRight, rest', hspellsRight', halike⟩ :=
        ih hright hspellsRight halike
      refine ⟨.link left combinator' right', ⟨hleft, hcombinator', hright'⟩, ?_, rest', ?_,
        halike⟩
      · rw [unspaced, unspaced, hunspaced, hunspacedRight]
      · rw [Complex.pieces]
        exact hspells'.append (hc'.append hspellsRight')

theorem Selector.exists_spells {selector : Selector} (hselector : selector.WellFormed dialect)
    (h : Spells (selector.pieces .free) tokens rest) (halike : SpacedAlike tokens tokens') :
    ∃ selector' : Selector, selector'.WellFormed dialect ∧
      selector'.unspaced = selector.unspaced ∧
        ∃ rest', Spells (selector'.pieces .free) tokens' rest' ∧ SpacedAlike rest rest' := by
  cases selector with
  | complex chain =>
      obtain ⟨chain', hchain', hunspaced, hspells'⟩ := Complex.exists_spells hselector h halike
      exact ⟨.complex chain', hchain', congrArg Selector.complex hunspaced, hspells'⟩
  | relative combinator chain =>
      obtain ⟨⟨c, rfl, hc⟩, hchain⟩ := hselector
      rw [Selector.pieces, Option.toList_some, List.flatMap_singleton] at h
      obtain ⟨middle, hspells, hspellsChain⟩ := spells_append_iff.1 h
      have hsolid := Grammar.solid_of_beginsCompound
        (Grammar.beginsCompound_of_spells_complex hchain hspellsChain)
      obtain ⟨middle', hspells', halike⟩ := hc.exists_spells hspells hsolid halike
      obtain ⟨chain', hchain', hunspaced, rest', hspellsChain', halike⟩ :=
        Complex.exists_spells hchain hspellsChain halike
      refine ⟨.relative (some c) chain', ⟨⟨c, rfl, hc⟩, hchain'⟩,
        congrArg (Selector.relative (some c)) hunspaced, rest', ?_, halike⟩
      rw [Selector.pieces, Option.toList_some, List.flatMap_singleton]
      exact hspells'.append hspellsChain'

theorem Selector.exists_spells_gap {selector : Selector}
    (hselector : selector.WellFormed dialect) (hgap : Spells [.gap false] tokens middle)
    (h : Spells (selector.pieces .free) middle rest) (hrespaced : Respaced tokens tokens') :
    ∃ selector' : Selector, selector'.WellFormed dialect ∧
      selector'.unspaced = selector.unspaced ∧
        ∃ middle' rest', Spells [.gap false] tokens' middle' ∧
          Spells (selector'.pieces .free) middle' rest' ∧ SpacedAlike rest rest' := by
  -- a relative selector begins with a gap too, so the place between the two gaps is not fixed
  have hsolid := Grammar.spells_selector_dropWhile hselector h
  rw [← hgap.dropWhile_eq] at hsolid
  obtain ⟨selector', hselector', hunspaced, rest', hspells', halike⟩ :=
    exists_spells hselector hsolid hrespaced
  exact ⟨selector', hselector', hunspaced, _, rest', spells_gap_dropWhile, hspells', halike⟩

theorem Selector.exists_spells_tail {others : List Selector}
    (hothers : ∀ s ∈ others, s.WellFormed dialect)
    (h : Spells (Selector.piecesOfTail .free others) tokens rest)
    (halike : SpacedAlike tokens tokens') :
    ∃ others' : List Selector, (∀ s ∈ others', s.WellFormed dialect) ∧
      others'.map unspaced = others.map unspaced ∧
        ∃ rest', Spells (Selector.piecesOfTail .free others') tokens' rest' ∧
          SpacedAlike rest rest' := by
  induction others generalizing tokens tokens' with
  | nil =>
      obtain rfl := h
      exact ⟨[], hothers, rfl, tokens', rfl, halike⟩
  | cons s others ih =>
      obtain ⟨hs, hothers⟩ := List.forall_mem_cons.1 hothers
      obtain ⟨middle, after, hcomma, hspells, htail⟩ :=
        Grammar.spells_piecesOfTail_cons_iff.1 h
      let comma : List Piece := [.gap false, .mark .comma]
      obtain ⟨behind, hcomma, hgap⟩ : ∃ behind, Spells comma tokens behind ∧
          Spells [.gap false] behind middle := spells_append_iff.1 hcomma
      have hanchored : Anchored comma := .gap (fun _ => ⟨rfl, rfl⟩) .nil
      obtain ⟨behind', hcomma', halike⟩ := hanchored.exists_spells hcomma halike
      obtain ⟨s', hs', hunspaced, middle', after', hgap', hspells', halike⟩ :=
        exists_spells_gap hs hgap hspells halike.respaced
      obtain ⟨others', hothers', hunspacedAll, rest', htail', halike⟩ := ih hothers htail halike
      refine ⟨s' :: others', List.forall_mem_cons.2 ⟨hs', hothers'⟩, ?_, rest', ?_, halike⟩
      · rw [List.map_cons, List.map_cons, hunspaced, hunspacedAll]
      · exact Grammar.spells_piecesOfTail_cons_iff.2
          ⟨middle', after', hcomma'.append hgap', hspells', htail'⟩

/-- A list in one spacing is, but for blank combinators, a list in any other that counts the
same. -/
theorem Selector.exists_spells_list {list : List Selector} (hne : list ≠ [])
    (hlist : ∀ s ∈ list, s.WellFormed dialect)
    (h : Spells (Selector.piecesOfList .free list) tokens [])
    (hrespaced : Respaced tokens tokens') :
    ∃ list' : List Selector, (∀ s ∈ list', s.WellFormed dialect) ∧
      list'.map unspaced = list.map unspaced ∧
        Spells (Selector.piecesOfList .free list') tokens' [] := by
  obtain ⟨first, others, rfl⟩ := List.exists_cons_of_ne_nil hne
  obtain ⟨hfirst, hothers⟩ := List.forall_mem_cons.1 hlist
  obtain ⟨behind, hitems, run, _, rfl, hblank, -, rfl⟩ := spells_piecesOfList_iff.1 h
  obtain ⟨middle, hgap, hitems⟩ := spells_append_iff.1 hitems
  obtain ⟨after, hspells, htail⟩ := spells_append_iff.1 hitems
  obtain ⟨first', hfirst', hunspaced, middle', after', hgap', hspells', halike⟩ :=
    exists_spells_gap hfirst hgap hspells hrespaced
  obtain ⟨others', hothers', hunspacedAll, behind', htail', halike⟩ :=
    exists_spells_tail hothers htail halike
  rw [List.append_nil] at halike
  refine ⟨first' :: others', List.forall_mem_cons.2 ⟨hfirst', hothers'⟩, ?_, ?_⟩
  · rw [List.map_cons, List.map_cons, hunspaced, hunspacedAll]
  · refine spells_piecesOfList_iff.2 ⟨behind', hgap'.append (hspells'.append htail'), ?_⟩
    exact ⟨behind', [], (List.append_nil _).symm, halike.blank_right hblank, by simp, rfl⟩

end Selectors

/-! ## Lists in other spacing -/

variable {options : Options} {tokens tokens' : List Token}

theorem exists_parseTokens_of_respaced (heof : ∀ t ∈ tokens, t.isEof = false)
    (h : Respaced tokens tokens') {list : List Selector}
    (hok : parseTokens options tokens = .ok list) :
    ∃ list', parseTokens options tokens' = .ok list' ∧
      list'.map Selector.unspaced = list.map Selector.unspaced := by
  obtain ⟨haccepts, hspells⟩ := parseTokens_eq_ok_iff.1 hok
  have hbefore : Token.beforeEof tokens = tokens := by
    rw [← List.append_nil tokens, Token.beforeEof_append_of_forall heof]
    rfl
  rw [hbefore] at hspells
  obtain ⟨list', hlist', hunspaced, hspells'⟩ :=
    Selector.exists_spells_list haccepts.nonempty haccepts.wellFormed hspells h
  have hcalls : Selector.callsOfList list' = Selector.callsOfList list := by
    rw [← Selector.callsOfList_unspaced list', hunspaced, Selector.callsOfList_unspaced]
  refine ⟨list', parseTokens_eq_ok_iff.2 ⟨⟨?_, hlist', hcalls ▸ haccepts.yields⟩, ?_⟩, hunspaced⟩
  · rintro rfl
    exact haccepts.nonempty (List.map_eq_nil_iff.1 hunspaced.symm)
  · rw [Token.beforeEof_of_spells hlist' hspells']
    exact hspells'

theorem Token.forall_isEof_unplaced_iff :
    (∀ t ∈ tokens.map Token.unplaced, t.isEof = false) ↔ ∀ t ∈ tokens, t.isEof = false := by
  have hunplaced (t : Token) : t.unplaced.isEof = t.isEof :=
    Token.faithful_unplaced.apply_eq Token.isEof_bare t
  simp [hunplaced]

/-- Tokens that are spaced alike but for their places form lists that differ at most in places
and blank combinators. -/
theorem exists_parseTokens_of_respaced_unplaced (heof : ∀ t ∈ tokens, t.isEof = false)
    (h : Respaced (tokens.map Token.unplaced) (tokens'.map Token.unplaced))
    {list : List Selector} (hok : parseTokens options tokens = .ok list) :
    ∃ list', parseTokens options tokens' = .ok list' ∧
      (list'.map Selector.unplaced).map Selector.unspaced =
        (list.map Selector.unplaced).map Selector.unspaced := by
  have heofUnplaced := Token.forall_isEof_unplaced_iff.2 heof
  have hunplaced := parseTokens_unplaced_eq_ok_iff.2 ⟨list, hok, rfl⟩
  obtain ⟨_, hok', hunspaced⟩ := exists_parseTokens_of_respaced heofUnplaced h hunplaced
  obtain ⟨list', hplaced, rfl⟩ := parseTokens_unplaced_eq_ok_iff.1 hok'
  exact ⟨list', hplaced, hunspaced⟩

/-- Runs of blank text count only by whether they hold whitespace, and those at the ends not at
all: in any spacing that keeps this, the same tokens form a list, and the lists are equal but
for places and the blank text that stands for combinators. -/
theorem parse_respaced (heof : ∀ t ∈ tokens, t.isEof = false)
    (h : Respaced (tokens.map Token.unplaced) (tokens'.map Token.unplaced)) :
    ((∃ list, parseTokens options tokens = .ok list) ↔
      ∃ list', parseTokens options tokens' = .ok list') ∧
    ∀ list list', parseTokens options tokens = .ok list → parseTokens options tokens' = .ok list' →
      (list.map Selector.unplaced).map Selector.unspaced =
        (list'.map Selector.unplaced).map Selector.unspaced := by
  have heof' : ∀ t ∈ tokens', t.isEof = false :=
    Token.forall_isEof_unplaced_iff.1 (h.isEof_right (Token.forall_isEof_unplaced_iff.2 heof))
  refine ⟨⟨?_, ?_⟩, ?_⟩
  · rintro ⟨list, hok⟩
    obtain ⟨list', hok', -⟩ := exists_parseTokens_of_respaced_unplaced heof h hok
    exact ⟨list', hok'⟩
  · rintro ⟨list', hok'⟩
    obtain ⟨list, hok, -⟩ := exists_parseTokens_of_respaced_unplaced heof' h.symm hok'
    exact ⟨list, hok⟩
  · intro list list' hok hok'
    obtain ⟨list'', hok'', hunspaced⟩ := exists_parseTokens_of_respaced_unplaced heof h hok
    obtain rfl := Except.ok.inj (hok'.symm.trans hok'')
    exact hunspaced.symm

theorem parse_respaced_comments :
    ∃ list list',
      parseTokens {} [.atom (.delim '*') ⟨0, 1⟩, .atom (.comment "") ⟨1, 5⟩,
        .atom (.delim '|') ⟨5, 6⟩, .atom (.delim '|') ⟨6, 7⟩, .atom (.ident "a") ⟨7, 8⟩,
        .atom .whitespace ⟨8, 9⟩, .atom (.ident "b") ⟨9, 10⟩] = .ok list ∧
      parseTokens {} [.atom .whitespace ⟨0, 1⟩, .atom (.delim '*') ⟨1, 2⟩,
        .atom (.comment "x") ⟨2, 7⟩, .atom (.comment "y") ⟨7, 12⟩, .atom (.delim '|') ⟨12, 13⟩,
        .atom (.delim '|') ⟨13, 14⟩, .atom (.ident "a") ⟨14, 15⟩, .atom (.comment "z") ⟨15, 20⟩,
        .atom .whitespace ⟨20, 21⟩, .atom (.ident "b") ⟨21, 22⟩,
        .atom (.comment "") ⟨22, 26⟩] = .ok list' ∧
      (list.map Selector.unplaced).map Selector.unspaced =
        (list'.map Selector.unplaced).map Selector.unspaced := by
  let tokens : List Token :=
    [.atom (.delim '*') ⟨0, 1⟩, .atom (.comment "") ⟨1, 5⟩, .atom (.delim '|') ⟨5, 6⟩,
      .atom (.delim '|') ⟨6, 7⟩, .atom (.ident "a") ⟨7, 8⟩, .atom .whitespace ⟨8, 9⟩,
      .atom (.ident "b") ⟨9, 10⟩]
  let tokens' : List Token :=
    [.atom .whitespace ⟨0, 1⟩, .atom (.delim '*') ⟨1, 2⟩, .atom (.comment "x") ⟨2, 7⟩,
      .atom (.comment "y") ⟨7, 12⟩, .atom (.delim '|') ⟨12, 13⟩, .atom (.delim '|') ⟨13, 14⟩,
      .atom (.ident "a") ⟨14, 15⟩, .atom (.comment "z") ⟨15, 20⟩, .atom .whitespace ⟨20, 21⟩,
      .atom (.ident "b") ⟨21, 22⟩, .atom (.comment "") ⟨22, 26⟩]
  let unplaced (a : Atom) : Token := .atom a ⟨0, 0⟩
  have hlast : SpacedAlike [] [unplaced (.comment "")] := .last (by decide) (by decide)
  have hb : SpacedAlike [unplaced .whitespace, unplaced (.ident "b")]
      [unplaced (.comment "z"), unplaced .whitespace, unplaced (.ident "b"),
        unplaced (.comment "")] := by
    have hgap : SameGap [unplaced .whitespace] [unplaced (.comment "z"), unplaced .whitespace] :=
      ⟨by decide, by decide, by simp, by decide⟩
    exact .next hgap (t := unplaced (.ident "b")) rfl hlast
  have hrespaced : Respaced (tokens.map Token.unplaced) (tokens'.map Token.unplaced) := by
    have hgap : SameGap [unplaced (.comment "")]
        [unplaced (.comment "x"), unplaced (.comment "y")] :=
      ⟨by decide, by decide, by simp, by decide⟩
    refine .cons (t := unplaced (.delim '*')) rfl ?_
    refine .next hgap (t := unplaced (.delim '|')) rfl ?_
    exact .cons (t := unplaced (.delim '|')) rfl (.cons (t := unplaced (.ident "a")) rfl hb)
  have hok : (parseTokens {} tokens).isOk = true := by with_unfolding_all rfl
  obtain ⟨hiff, hlists⟩ := parse_respaced (by decide) hrespaced
  cases hlist : parseTokens {} tokens with
  | error e =>
      rw [hlist] at hok
      cases hok
  | ok list =>
      obtain ⟨list', hlist'⟩ := hiff.1 ⟨list, hlist⟩
      exact ⟨list, list', rfl, hlist', hlists list list' hlist hlist'⟩

end CssSelectors
