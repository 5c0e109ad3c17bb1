import CssSelectors.Parse
import CssSelectors.Proofs.Significance

/-!
# Accepted token lists

A token list is read as a selector list exactly if the tokens before its end spell the
list, the list is well formed, and every function in it holds the arguments that the
grammar yields for it. All other results about accepted tokens rest on this one.
-/

namespace CssSelectors

open Production

variable {tokens rest : List Token}

/-! ## The end of the text -/

theorem Token.isEof_eq_false {accept : Token → Bool}
    (haccept : ∀ span, accept (.atom .eof span) = false) {t : Token} (h : accept t = true) :
    t.isEof = false := by
  rw [Bool.eq_false_iff]
  intro ht
  obtain ⟨span, rfl⟩ := Token.isEof_iff.1 ht
  rw [haccept] at h
  cases h

/-- None of the pieces is spelled by the end of the text. -/
def Inside (pieces : List Piece) : Prop :=
  ∀ piece ∈ pieces, match piece with
    | .stored t => t.isEof = false
    | .mark a => a ≠ .eof
    | .gap _ => True

section Inside

variable {pieces left right : List Piece}

@[simp] theorem inside_nil : Inside [] := by
  simp [Inside]

@[simp] theorem inside_stored_iff {t : Token} :
    Inside (.stored t :: pieces) ↔ t.isEof = false ∧ Inside pieces :=
  List.forall_mem_cons

@[simp] theorem inside_mark_iff {a : Atom} :
    Inside (.mark a :: pieces) ↔ a ≠ .eof ∧ Inside pieces :=
  List.forall_mem_cons

@[simp] theorem inside_gap_iff {needed : Bool} :
    Inside (.gap needed :: pieces) ↔ Inside pieces := by
  rw [Inside, List.forall_mem_cons]
  exact and_iff_right trivial

@[simp] theorem inside_append_iff : Inside (left ++ right) ↔ Inside left ∧ Inside right :=
  List.forall_mem_append

theorem inside_flatMap {α : Type} {f : α → List Piece} {as : List α}
    (h : ∀ a ∈ as, Inside (f a)) : Inside (as.flatMap f) := by
  intro piece hpiece
  obtain ⟨a, ha, hpiece⟩ := List.mem_flatMap.1 hpiece
  exact h a ha piece hpiece

theorem inside_map_stored {stored : List Token} (h : ∀ t ∈ stored, t.isEof = false) :
    Inside (stored.map .stored) := by
  intro piece hpiece
  obtain ⟨t, ht, rfl⟩ := List.mem_map.1 hpiece
  exact h t ht

theorem Spells.isEof_eq_false (hpieces : Inside pieces) (h : Spells pieces tokens []) :
    ∀ t ∈ tokens, t.isEof = false := by
  induction pieces generalizing tokens with
  | nil =>
      obtain rfl := h
      simp
  | cons piece pieces ih =>
      cases piece with
      | stored t =>
          obtain ⟨middle, rfl, h⟩ := h
          obtain ⟨ht, hpieces⟩ := inside_stored_iff.1 hpieces
          exact List.forall_mem_cons.2 ⟨ht, ih hpieces h⟩
      | mark a =>
          obtain ⟨span, middle, rfl, h⟩ := h
          obtain ⟨ha, hpieces⟩ := inside_mark_iff.1 hpieces
          refine List.forall_mem_cons.2 ⟨?_, ih hpieces h⟩
          rw [Bool.eq_false_iff]
          intro ht
          obtain ⟨span', heq⟩ := Token.isEof_iff.1 ht
          cases heq
          exact ha rfl
      | gap needed =>
          obtain ⟨blank, middle, rfl, hblank, -, h⟩ := h
          refine List.forall_mem_append.2 ⟨fun t ht => ?_, ih (inside_gap_iff.1 hpieces) h⟩
          exact Token.isEof_eq_false (fun _ => rfl) (hblank t ht)

theorem Piece.IsProper.inside {piece : Piece} (h : piece.IsProper) (hpieces : Inside pieces) :
    Inside (piece :: pieces) := by
  match piece with
  | .stored t => exact inside_stored_iff.2 ⟨h.2, hpieces⟩
  | .mark a =>
      refine inside_mark_iff.2 ⟨?_, hpieces⟩
      rintro rfl
      exact Bool.noConfusion (h ⟨0, 0⟩).2

theorem Anchored.inside (h : Anchored pieces) : Inside pieces := by
  induction h with
  | nil => exact inside_nil
  | token hpiece _ ih => exact hpiece.inside ih
  | gap hpiece _ ih => exact inside_gap_iff.2 (hpiece.inside ih)

end Inside

section WellFormed

variable {dialect : Dialect}

theorem Combinator.WellFormed.inside {combinator : Combinator}
    (h : combinator.WellFormed dialect) {before : List Piece} (hbefore : Inside before) :
    Inside (combinator.pieces .free before) := by
  have htokens : Inside (combinator.tokens.map .stored) := by
    rcases h with ⟨symbol, -, hspelled⟩ | ⟨-, hblank, -⟩
    · exact hspelled.gapless.anchored.inside
    · exact inside_map_stored fun t ht => Token.isEof_eq_false (fun _ => rfl) (hblank t ht)
  unfold Combinator.pieces
  split <;> simp [htokens, hbefore]

theorem Complex.WellFormed.inside {chain : Complex} (h : chain.WellFormed dialect) :
    Inside (chain.pieces .free) := by
  induction chain using Complex.compounds.induct with
  | case1 left => exact (Compound.WellFormed.anchored h).inside
  | case2 left combinator right ih =>
      obtain ⟨hleft, hcombinator, hright⟩ := h
      have hbehind : Inside (Layout.free.behind left combinator) := by
        simp [Grammar.behind_free]
      have hinside : Inside (left.pieces .free) := (Compound.WellFormed.anchored hleft).inside
      simp [Complex.pieces, hinside, hcombinator.inside hbehind, ih hright]

theorem Selector.WellFormed.inside {selector : Selector} (h : selector.WellFormed dialect) :
    Inside (selector.pieces .free) := by
  cases selector with
  | complex chain => exact Complex.WellFormed.inside h
  | relative combinator chain =>
      obtain ⟨⟨c, rfl, hc⟩, hchain⟩ := h
      have hcombinator : Inside (c.pieces .free [.gap false]) :=
        Combinator.WellFormed.inside (.inl hc : c.WellFormed dialect) (by simp)
      simp [Selector.pieces, hcombinator, Complex.WellFormed.inside hchain]

theorem Selector.inside_piecesOfItems {list : List Selector}
    (h : ∀ s ∈ list, s.WellFormed dialect) : Inside (Selector.piecesOfItems .free list) := by
  cases list with
  | nil => exact inside_nil
  | cons s others =>
      obtain ⟨hs, hothers⟩ := List.forall_mem_cons.1 h
      refine inside_append_iff.2 ⟨hs.inside, inside_flatMap fun r hr => ?_⟩
      simp [(hothers r hr).inside]

end WellFormed

/-! ## Accepted lists -/

namespace Token

def beforeEof (tokens : List Token) : List Token :=
  tokens.takeWhile fun t => !t.isEof

theorem beforeEof_append_of_forall {taken : List Token} (h : ∀ t ∈ taken, t.isEof = false) :
    beforeEof (taken ++ rest) = taken ++ beforeEof rest :=
  List.takeWhile_append_of_pos fun t ht => by simp [h t ht]

theorem spells_gap_of_atEnd (h : atEnd tokens = true) :
    Spells [.gap false] (beforeEof tokens) [] := by
  have hblank : ∀ t ∈ tokens.takeWhile isInsignificant, t.isInsignificant = true :=
    all_insignificant_takeWhile
  have heof : ∀ t ∈ tokens.takeWhile isInsignificant, t.isEof = false :=
    fun t ht => Token.isEof_eq_false (fun _ => rfl) (hblank t ht)
  have hsplit : tokens.takeWhile isInsignificant ++ tokens.dropWhile isInsignificant = tokens :=
    List.takeWhile_append_dropWhile
  have hend : beforeEof (tokens.dropWhile isInsignificant) = [] := by
    unfold atEnd at h
    cases hdrop : tokens.dropWhile isInsignificant with
    | nil => rfl
    | cons t ts =>
        rw [hdrop] at h
        have ht : t.isEof = true := h
        simp [beforeEof, ht]
  rw [← hsplit, beforeEof_append_of_forall heof, hend, List.append_nil]
  exact ⟨_, [], (List.append_nil _).symm, hblank, by simp, rfl⟩

theorem exists_eq_beforeEof_append (tokens : List Token) :
    ∃ behind, tokens = beforeEof tokens ++ behind ∧ ∀ t ∈ behind.head?, t.isEof = true := by
  refine ⟨tokens.dropWhile fun t => !t.isEof, List.takeWhile_append_dropWhile.symm, ?_⟩
  intro t ht
  have := List.head?_dropWhile_not (fun t : Token => !t.isEof) tokens
  rw [ht] at this
  simpa using this

end Token

theorem parseTokens_eq_ok_iff_matches {options : Options} {list : List Selector} :
    parseTokens options tokens = .ok list ↔
      ∃ rest, (Grammar.ofLevels options.dialect options.maxDepth).wholeList.Matches tokens list
        rest ∧ Token.atEnd rest = true := by
  unfold parseTokens readTokens Matches
  cases h : ((Grammar.ofLevels options.dialect options.maxDepth).wholeList tokens).outcome with
  | matched l rest => by_cases hend : Token.atEnd rest = true <;> simp [h, hend]
  | noMatch stuck => simp [h]
  | tooDeep => simp [h]

theorem spells_piecesOfList_iff {list : List Selector} :
    Spells (Selector.piecesOfList .free list) tokens rest ↔
      ∃ middle, Spells ([.gap false] ++ Selector.piecesOfItems .free list) tokens middle ∧
        Spells [.gap false] middle rest := by
  rw [← spells_append_iff, List.append_assoc]
  rfl

theorem Token.atEnd_append {blank behind : List Token}
    (hblank : ∀ t ∈ blank, t.isInsignificant = true)
    (hbehind : ∀ t ∈ behind.head?, t.isEof = true) : Token.atEnd (blank ++ behind) = true := by
  have hsolid : Solid behind := by
    cases behind with
    | nil => rfl
    | cons t ts =>
        obtain ⟨span, rfl⟩ := Token.isEof_iff.1 (hbehind t rfl)
        rfl
  rw [Token.atEnd, dropWhile_append_of_solid hblank hsolid]
  cases behind with
  | nil => rfl
  | cons t ts => exact hbehind t rfl

theorem Token.beforeEof_of_spells {dialect : Dialect} {list : List Selector}
    (hlist : ∀ s ∈ list, s.WellFormed dialect)
    (h : Spells (Selector.piecesOfList .free list) tokens []) :
    Token.beforeEof tokens = tokens := by
  have hinside : Inside (Selector.piecesOfList .free list) := by
    simpa [Selector.piecesOfList] using Selector.inside_piecesOfItems hlist
  have happend : beforeEof (tokens ++ []) = tokens ++ beforeEof [] :=
    beforeEof_append_of_forall (h.isEof_eq_false hinside)
  rwa [List.append_nil, show beforeEof [] = [] from rfl, List.append_nil] at happend

/-- A list is read up to the end exactly if the tokens before the end spell it. -/
theorem Grammar.exists_matches_wholeList_iff {g : Grammar} (hg : g.Sealed)
    {list : List Selector} :
    (∃ rest, g.wholeList.Matches tokens list rest ∧ Token.atEnd rest = true) ↔
      g.Accepts list ∧ Spells (Selector.piecesOfList .free list) (Token.beforeEof tokens) [] := by
  constructor
  · rintro ⟨rest, hmatches, hend⟩
    obtain ⟨hlist, hspells⟩ := spells_of_matches_wholeList hg hmatches
    obtain ⟨taken, rfl, htaken⟩ := spells_iff_exists_taken.1 hspells
    have hinside : Inside ([.gap false] ++ Selector.piecesOfItems .free list) := by
      simpa using Selector.inside_piecesOfItems hlist.wellFormed
    refine ⟨hlist, spells_piecesOfList_iff.2 ⟨Token.beforeEof rest, ?_, ?_⟩⟩
    · rw [Token.beforeEof_append_of_forall (htaken.isEof_eq_false hinside)]
      exact spells_iff_exists_taken.2 ⟨taken, rfl, htaken⟩
    · exact Token.spells_gap_of_atEnd hend
  · rintro ⟨hlist, hspells⟩
    obtain ⟨behind, htokens, hbehind⟩ := Token.exists_eq_beforeEof_append tokens
    obtain ⟨middle, hitems, blank, _, rfl, hblank, -, rfl⟩ := spells_piecesOfList_iff.1 hspells
    rw [List.append_nil] at hitems
    have hend : Token.atEnd (blank ++ behind) = true := Token.atEnd_append hblank hbehind
    have hmatches := matches_wholeList hg hlist (hitems.append_tokens behind) hend
    rw [← htokens] at hmatches
    exact ⟨blank ++ behind, hmatches, hend⟩

/-- The tokens that are read as a selector list are those that spell it before their end. -/
theorem parseTokens_eq_ok_iff {options : Options} {list : List Selector} :
    parseTokens options tokens = .ok list ↔
      (Grammar.ofLevels options.dialect options.maxDepth).Accepts list ∧
        Spells (Selector.piecesOfList .free list) (Token.beforeEof tokens) [] := by
  rw [parseTokens_eq_ok_iff_matches]
  exact Grammar.exists_matches_wholeList_iff (Grammar.sealed_ofLevels _ _)

/-! ## Errors -/

section Errors

variable {options : Options}

/-- Some token does not fit, whichever it is. -/
def IsMalformed (options : Options) (tokens : List Token) : Prop :=
  ∃ found first last, parseTokens options tokens = .error (.unexpected found first last)

theorem parseTokens_eq_tooDeep_iff {limit : Nat} :
    parseTokens options tokens = .error (.nestingTooDeep limit) ↔
      (Grammar.ofLevels options.dialect options.maxDepth).wholeList.Overflows tokens ∧
        options.maxDepth = limit := by
  unfold parseTokens readTokens Overflows
  cases h : ((Grammar.ofLevels options.dialect options.maxDepth).wholeList tokens).outcome with
  | matched list rest =>
      by_cases hend : Token.atEnd rest = true <;> simp [h, hend, SelectorError.ofToken]
  | noMatch stuck => simp [h, SelectorError.ofToken]
  | tooDeep => simp [h]

/-- Tokens are malformed if no list begins them, or one does and does not end them. -/
theorem isMalformed_iff_outcome :
    IsMalformed options tokens ↔
      (Grammar.ofLevels options.dialect options.maxDepth).wholeList.Refuses tokens ∨
        ∃ list rest, (Grammar.ofLevels options.dialect options.maxDepth).wholeList.Matches tokens
          list rest ∧ Token.atEnd rest = false := by
  unfold IsMalformed parseTokens readTokens Refuses Matches
  cases h : ((Grammar.ofLevels options.dialect options.maxDepth).wholeList tokens).outcome with
  | matched list rest =>
      by_cases hend : Token.atEnd rest = true <;> simp [h, hend, SelectorError.ofToken]
  | noMatch stuck => simp [h, SelectorError.ofToken]
  | tooDeep => simp [h]

theorem isMalformed_iff :
    IsMalformed options tokens ↔
      (∀ list, parseTokens options tokens ≠ .ok list) ∧
        parseTokens options tokens ≠ .error (.nestingTooDeep options.maxDepth) := by
  unfold IsMalformed
  cases h : parseTokens options tokens with
  | ok list => simp
  | error e =>
      cases e with
      | unexpected found first last => simp
      | nestingTooDeep limit => simp [(parseTokens_eq_tooDeep_iff.1 h).2]

end Errors

/-! ## Functions at every depth -/

namespace Grammar

variable {dialect : Dialect} {levels depth : Nat} {ts kept : List Token} {list : List Selector}
  {function : Token} {arguments : Arguments}

theorem says_selectors_iff :
    Says (ofLevels dialect levels) ts (.selectors list) ↔
      (∀ value leftover, ¬ anPlusB.Matches ts value leftover) ∧
        parseTokens ⟨dialect, levels⟩ ts = .ok list := by
  rw [parseTokens_eq_ok_iff_matches]
  constructor
  · rintro (_ | ⟨hno, hmatches, hend⟩)
    exact ⟨hno, _, hmatches, hend⟩
  · rintro ⟨hno, leftover, hmatches, hend⟩
    exact .selectors hno hmatches hend

theorem says_raw_iff :
    Says (ofLevels dialect levels) ts (.raw kept) ↔
      kept = ts ∧ (∀ value leftover, ¬ anPlusB.Matches ts value leftover) ∧
        IsMalformed ⟨dialect, levels⟩ ts := by
  rw [isMalformed_iff, ne_eq, parseTokens_eq_tooDeep_iff, and_iff_left rfl]
  constructor
  · rintro (_ | _ | ⟨hno, hdeep, hlist⟩)
    refine ⟨rfl, hno, fun list hok => ?_, hdeep⟩
    obtain ⟨leftover, hmatches, hend⟩ := parseTokens_eq_ok_iff_matches.1 hok
    rw [hlist list leftover hmatches] at hend
    cases hend
  · rintro ⟨rfl, hno, hlist, hdeep⟩
    refine .raw hno hdeep fun list leftover hmatches => ?_
    rw [Bool.eq_false_iff]
    intro hend
    exact hlist list (parseTokens_eq_ok_iff_matches.2 ⟨leftover, hmatches, hend⟩)

theorem parseTokens_of_yields_selectors
    (h : (ofLevels dialect levels).Yields function (.selectors list)) :
    ∃ deeper, levels = deeper + 1 ∧
      parseTokens ⟨dialect, deeper⟩ (argumentTokens function) = .ok list := by
  by_cases hnil : argumentTokens function = []
  · have hempty := (yields_empty_iff hnil).1 h
    cases hempty
  · cases levels with
    | zero => exact absurd h (not_yields_zero hnil)
    | succ deeper =>
        exact ⟨deeper, rfl, (says_selectors_iff.1 ((yields_succ_iff hnil).1 h)).2⟩

theorem accepts_of_yields_selectors
    (h : (ofLevels dialect levels).Yields function (.selectors list)) :
    ∃ deeper, levels = deeper + 1 ∧ (ofLevels dialect deeper).Accepts list := by
  obtain ⟨deeper, rfl, hok⟩ := parseTokens_of_yields_selectors h
  exact ⟨deeper, rfl, (parseTokens_eq_ok_iff.1 hok).1⟩

theorem isMalformed_of_yields_raw (h : (ofLevels dialect levels).Yields function (.raw kept)) :
    kept = argumentTokens function ∧
      ∃ deeper, levels = deeper + 1 ∧ IsMalformed ⟨dialect, deeper⟩ kept := by
  by_cases hnil : argumentTokens function = []
  · have hempty := (yields_empty_iff hnil).1 h
    cases hempty
  · cases levels with
    | zero => exact absurd h (not_yields_zero hnil)
    | succ deeper =>
        obtain ⟨rfl, -, hmalformed⟩ := says_raw_iff.1 ((yields_succ_iff hnil).1 h)
        exact ⟨rfl, deeper, rfl, hmalformed⟩

/-- Every function of an accepted list, at whatever depth, holds what the grammar yields for it
with as many levels less as others enclose it. -/
theorem Accepts.yields_of_callAt (h : (ofLevels dialect levels).Accepts list)
    (hcall : CallAt list depth function arguments) :
    function.isFunction = true ∧
      ∃ deeper, levels = depth + deeper ∧ (ofLevels dialect deeper).Yields function arguments := by
  induction hcall generalizing levels with
  | @here list function arguments hcall =>
      obtain ⟨s, hs, hmem⟩ := List.mem_flatMap.1 hcall
      refine ⟨Selector.isFunction_of_mem_calls (h.wellFormed s hs) hmem, levels, ?_, ?_⟩
      · omega
      · exact h.yields _ hcall
  | inside hcall hinner ih =>
      obtain ⟨deeper, rfl, hdeeper⟩ := accepts_of_yields_selectors (h.yields _ hcall)
      obtain ⟨hfunction, deepest, rfl, hyields⟩ := ih hdeeper
      exact ⟨hfunction, deepest, by omega, hyields⟩

end Grammar

end CssSelectors
