import CssSelectors.Proofs.Reading.Compound

/-!
# Reading chains

Combinators, and the compounds that they join. A combinator that delimiters spell may
have blank text around it, except that a column combinator needs some behind a lone
asterisk: its first bar would make a namespace of the asterisk.
-/

namespace CssSelectors

open Production

/-! ## Combinators -/

theorem Dialect.exists_head_of_operator {dialect : Dialect} {op : CombinatorKind × List Char}
    (h : op ∈ dialect.operators) : ∃ c cs, op.2 = c :: cs ∧ c ∈ ['>', '+', '~', '|', '/'] := by
  cases dialect <;> revert op <;> simp [Dialect.operators]

theorem Dialect.symbol_ne_nil {dialect : Dialect} {op : CombinatorKind × List Char}
    (h : op ∈ dialect.operators) : op.2 ≠ [] := by
  obtain ⟨c, cs, hsymbol, -⟩ := Dialect.exists_head_of_operator h
  simp [hsymbol]

theorem Dialect.eq_column_of_head {dialect : Dialect} {op : CombinatorKind × List Char}
    (h : op ∈ dialect.operators) (hhead : op.2.head? = some '|') : op = (.column, ['|', '|']) := by
  revert h hhead
  cases dialect <;> simp only [Dialect.operators, List.mem_cons, List.not_mem_nil, or_false] <;>
    rintro (rfl | rfl | rfl | rfl | rfl | rfl) <;> simp

namespace Combinator

variable {dialect : Dialect} {combinator : Combinator}

theorem IsOperator.isExplicit (h : combinator.IsOperator dialect) :
    combinator.isExplicit = true := by
  obtain ⟨symbol, -, hspelled⟩ := h
  rw [Combinator.isExplicit, List.all_eq_true]
  intro t ht
  obtain ⟨c, -, hc⟩ := hspelled.exists_mem t ht
  obtain ⟨span, rfl⟩ := Token.isDelim_iff.1 hc
  rfl

theorem IsOperator.eq_bars_of_column (h : combinator.IsOperator dialect)
    (hkind : combinator.kind = .column) :
    ∃ bar bar', combinator.tokens = [bar, bar'] ∧ bar.isDelim '|' = true ∧
      bar'.isDelim '|' = true := by
  obtain ⟨symbol, hop, hspelled⟩ := h
  have hsymbol : symbol = ['|', '|'] := by
    rw [hkind] at hop
    cases dialect <;> simpa [Dialect.operators] using hop
  subst hsymbol
  obtain ⟨bar, ts, hbar, hts, htokens⟩ := List.forall₂_cons_left_iff.1 hspelled
  obtain ⟨bar', us, hbar', hus, rfl⟩ := List.forall₂_cons_left_iff.1 hts
  obtain rfl := List.forall₂_nil_left_iff.1 hus
  exact ⟨bar, bar', htokens, hbar, hbar'⟩

theorem IsBlank.isExplicit (h : combinator.IsBlank) : combinator.isExplicit = false := by
  obtain ⟨-, hblank, t, ht, -⟩ := h
  rw [Combinator.isExplicit, List.all_eq_false]
  exact ⟨t, ht, by simp [hblank t ht]⟩

end Combinator

namespace Grammar

variable {g : Grammar} {dialect : Dialect} {tokens rest : List Token}

/-- All combinators of a dialect in the order they are tried. -/
def combinators (dialect : Dialect) : List (Production Combinator) :=
  dialect.operators.map (fun op => operator op.1 op.2) ++ [descendantCombinator]

theorem matches_combinator_iff_firstOf {c : Combinator} :
    (combinator dialect).Matches tokens c rest ↔
      (firstOf (combinators dialect)).Matches tokens c rest := by
  cases dialect <;>
    simp [combinator, standardCombinator, combinators, Dialect.operators, CombinatorKind.symbol]

theorem not_overflows_combinator : ¬ (combinator dialect).Overflows tokens := by
  have hoperator (kind : CombinatorKind) (symbol : List Char) (tokens : List Token) :
      ¬ (operator kind symbol).Overflows tokens := by
    simp [operator]
  have hdescendant : ¬ descendantCombinator.Overflows tokens := by
    simp only [descendantCombinator, overflows_bind_iff, not_overflows_insignificant, false_or]
    rintro ⟨blank, _, -, h⟩
    split at h <;> simp at h
  cases dialect <;> simp [combinator, standardCombinator, hoperator, hdescendant]

theorem matches_operator_iff {kind : CombinatorKind} {symbol : List Char} (hne : symbol ≠ [])
    {c : Combinator} :
    (operator kind symbol).Matches tokens c rest ↔
      c.kind = kind ∧ Spelled symbol c.tokens ∧
        Spells ([.gap false] ++ (c.tokens.map .stored ++ [.gap false])) tokens rest ∧
          Solid rest := by
  obtain ⟨kind', spelling⟩ := c
  simp only [operator, matches_bind_iff, matches_skip_iff_spells, matches_spelled_iff,
    matches_pure_iff, Combinator.mk.injEq, spells_append_iff, spells_map_stored_iff]
  constructor
  · rintro ⟨_, m₁, ⟨hgap, -⟩, _, m₂, ⟨rfl, hspelled⟩, _, _, ⟨hgap', hsolid⟩, ⟨rfl, rfl⟩, rfl⟩
    exact ⟨rfl, hspelled, ⟨_, hgap, m₂, rfl, hgap'⟩, hsolid⟩
  · rintro ⟨rfl, hspelled, ⟨_, hgap, m₂, rfl, hgap'⟩, hsolid⟩
    exact ⟨(), _, ⟨hgap, hspelled.solid_append hne⟩, spelling, m₂, ⟨rfl, hspelled⟩, (), rest,
      ⟨hgap', hsolid⟩, ⟨rfl, rfl⟩, rfl⟩

theorem refuses_operator {kind : CombinatorKind} {symbol : List Char} {solid : List Token}
    (hgap : Spells [.gap false] tokens solid) (hsolid : Solid solid)
    (h : (spelled symbol).Refuses solid) : (operator kind symbol).Refuses tokens := by
  have hskip : skip.Matches tokens () solid := matches_skip_iff_spells.2 ⟨hgap, hsolid⟩
  rw [operator, hskip.refuses_bind_iff, refuses_bind_iff]
  exact .inl h

theorem matches_descendantCombinator_iff {c : Combinator} :
    descendantCombinator.Matches tokens c rest ↔
      c.IsBlank ∧ tokens = c.tokens ++ rest ∧ Solid rest := by
  obtain ⟨kind, blank⟩ := c
  simp only [descendantCombinator, matches_bind_iff, matches_insignificant_iff]
  constructor
  · rintro ⟨_, _, ⟨rfl, rfl⟩, h⟩
    split at h
    · rename_i hany
      simp only [matches_pure_iff, Combinator.mk.injEq] at h
      obtain ⟨⟨rfl, rfl⟩, rfl⟩ := h
      refine ⟨⟨rfl, all_insignificant_takeWhile, ?_⟩, ?_, solid_dropWhile⟩
      · simpa using hany
      · exact List.takeWhile_append_dropWhile.symm
    · exact absurd h not_matches_fail
  · rintro ⟨⟨hkind, hblank, hwhite⟩, rfl, hsolid⟩
    have hkind : kind = .descendant := hkind
    have htake := takeWhile_append_of_solid hblank hsolid
    have hdrop := dropWhile_append_of_solid hblank hsolid
    refine ⟨blank, rest, ⟨htake.symm, hdrop.symm⟩, ?_⟩
    rw [if_pos (by simpa using hwhite)]
    simp [hkind]

theorem pieces_of_isOperator {c : Combinator} (h : c.IsOperator dialect) (before : List Piece) :
    c.pieces .free before = before ++ (c.tokens.map .stored ++ [.gap false]) := by
  rw [Combinator.pieces, if_pos h.isExplicit]
  rfl

theorem pieces_of_isBlank {c : Combinator} (h : c.IsBlank) (before : List Piece) :
    c.pieces .free before = c.tokens.map .stored := by
  rw [Combinator.pieces, if_neg (by simp [h.isExplicit])]

theorem spells_of_matches_combinator {c : Combinator}
    (h : (combinator dialect).Matches tokens c rest) :
    c.WellFormed dialect ∧ Spells (c.pieces .free [.gap false]) tokens rest ∧ Solid rest := by
  obtain ⟨p, hp, hmatches⟩ := (matches_combinator_iff_firstOf.1 h).exists_mem_firstOf
  rcases List.mem_append.1 hp with hp | hp
  · obtain ⟨op, hop, rfl⟩ := List.mem_map.1 hp
    obtain ⟨hkind, hspelled, hspells, hsolid⟩ :=
      (matches_operator_iff (Dialect.symbol_ne_nil hop)).1 hmatches
    have hoperator : c.IsOperator dialect := ⟨op.2, by rw [hkind]; exact hop, hspelled⟩
    refine ⟨.inl hoperator, ?_, hsolid⟩
    rw [pieces_of_isOperator hoperator]
    exact hspells
  · obtain rfl := List.mem_singleton.1 hp
    obtain ⟨hblank, rfl, hsolid⟩ := matches_descendantCombinator_iff.1 hmatches
    refine ⟨.inr hblank, ?_, hsolid⟩
    rw [pieces_of_isBlank hblank]
    exact spells_map_stored_iff.2 rfl

/-- Two combinators that begin with the same delimiter are the same, or a slash and two. -/
theorem eq_or_slash_of_head {op op' : CombinatorKind × List Char} (h : op ∈ dialect.operators)
    (h' : op' ∈ dialect.operators) (hhead : op'.2.head? = op.2.head?) :
    op' = op ∨ op.2 = ['/'] ∧ op'.2 = ['/', '/'] ∨
      dialect = .extended ∧ op = (.descendant, ['/', '/']) := by
  revert h h' hhead
  cases dialect <;> simp only [Dialect.operators, List.mem_cons, List.not_mem_nil, or_false] <;>
    rintro (rfl | rfl | rfl | rfl | rfl | rfl) <;>
    rintro (rfl | rfl | rfl | rfl | rfl | rfl) <;> simp

/-- No combinator is spelled at the front of the tokens. -/
def NoOperator (dialect : Dialect) (tokens : List Token) : Prop :=
  ∀ op ∈ dialect.operators, (spelled op.2).Refuses tokens

theorem NoOperator.refuses_slashes {t : Token} {blank : List Token}
    (h : NoOperator .extended rest) (hblank : ∀ t ∈ blank, t.isInsignificant = true) :
    (spelled ['/', '/']).Refuses (t :: (blank ++ rest)) := by
  have hnext : (token (Token.isDelim '/')).Refuses (blank ++ rest) := by
    cases blank with
    | cons u us =>
        rw [List.cons_append, refuses_token_cons_iff]
        have hu := hblank u List.mem_cons_self
        cases hdelim : u.isDelim '/' with
        | false => rfl
        | true =>
            obtain ⟨span, rfl⟩ := Token.isDelim_iff.1 hdelim
            cases hu
    | nil =>
        have hslash := h (.child, ['/']) (by simp [Dialect.operators])
        simpa [spelled] using hslash
  cases ht : t.isDelim '/' with
  | false => exact refuses_spelled_of_head (by simpa using ht)
  | true =>
      have hfirst : (token (Token.isDelim '/')).Matches (t :: (blank ++ rest)) t (blank ++ rest) :=
        matches_token_iff.2 ⟨rfl, ht⟩
      rw [spelled, hfirst.refuses_bind_iff, spelled, refuses_bind_iff, refuses_bind_iff]
      exact .inl (.inl hnext)

theorem refuses_spelled_of_ne {op op' : CombinatorKind × List Char} {spelling blank : List Token}
    (h : op ∈ dialect.operators) (h' : op' ∈ dialect.operators)
    (hspelled : Spelled op.2 spelling) (hblank : ∀ t ∈ blank, t.isInsignificant = true)
    (hrest : NoOperator dialect rest) (hne : op' ≠ op)
    (hslashes : ¬ (dialect = .extended ∧ op = (.descendant, ['/', '/']))) :
    (spelled op'.2).Refuses (spelling ++ (blank ++ rest)) := by
  obtain ⟨c, cs, hc, -⟩ := Dialect.exists_head_of_operator h
  obtain ⟨c', cs', hc', -⟩ := Dialect.exists_head_of_operator h'
  rw [hc] at hspelled
  obtain ⟨t, ts, ht, hts, rfl⟩ := List.forall₂_cons_left_iff.1 hspelled
  by_cases hhead : c' = c
  · rcases eq_or_slash_of_head h h' (by simp [hc, hc', hhead]) with heq | ⟨hop, hop'⟩ | heq
    · exact absurd heq hne
    · -- a slash: the doubled one would need another slash behind it
      have hcs : cs = [] := by simpa [hop, eq_comm] using congrArg List.tail hc
      rw [hcs] at hts
      obtain rfl := List.forall₂_nil_left_iff.1 hts
      have hextended : dialect = .extended := by
        cases dialect with
        | extended => rfl
        | standard =>
            obtain ⟨kind, symbol⟩ := op'
            obtain rfl : symbol = ['/', '/'] := hop'
            simp [Dialect.operators] at h'
      subst hextended
      rw [hop']
      exact hrest.refuses_slashes hblank
    · exact absurd heq hslashes
  · rw [hc']
    obtain ⟨span, rfl⟩ := Token.isDelim_iff.1 ht
    apply refuses_spelled_of_head
    simp [Token.isDelim, Ne.symm hhead]

theorem matches_combinator_of_isOperator {c : Combinator} (hc : c.IsOperator dialect)
    (h : Spells ([.gap false] ++ (c.tokens.map .stored ++ [.gap false])) tokens rest)
    (hsolid : Solid rest) (hrest : NoOperator dialect rest) :
    (combinator dialect).Matches tokens c rest := by
  obtain ⟨symbol, hop, hspelled⟩ := hc
  have hne : symbol ≠ [] := Dialect.symbol_ne_nil hop
  have hmatches : (operator c.kind symbol).Matches tokens c rest :=
    (matches_operator_iff hne).2 ⟨rfl, hspelled, h, hsolid⟩
  by_cases hslashes : dialect = .extended ∧ (c.kind, symbol) = (.descendant, ['/', '/'])
  · obtain ⟨rfl, heq⟩ := hslashes
    obtain ⟨hkind, rfl⟩ := Prod.mk.inj heq
    rw [hkind] at hmatches
    simp [combinator, hmatches]
  · rw [matches_combinator_iff_firstOf, combinators, matches_firstOf_append_iff]
    left
    apply hmatches.firstOf (List.mem_map.2 ⟨_, hop, rfl⟩)
    intro q hq
    obtain ⟨op, hop', rfl⟩ := List.mem_map.1 hq
    by_cases heq : op = (c.kind, symbol)
    · exact .inl (by rw [heq])
    · right
      simp only [spells_append_iff, spells_map_stored_iff] at h
      obtain ⟨_, hbefore, m, rfl, hbehind⟩ := h
      obtain ⟨blank, _, rfl, hblank, -, rfl⟩ := hbehind
      apply refuses_operator hbefore (hspelled.solid_append hne)
      exact refuses_spelled_of_ne hop hop' hspelled hblank hrest heq hslashes

theorem matches_combinator {c : Combinator} (hc : c.WellFormed dialect)
    (h : Spells (c.pieces .free [.gap false]) tokens rest) (hsolid : Solid rest)
    (hrest : NoOperator dialect rest) : (combinator dialect).Matches tokens c rest := by
  rcases hc with hc | hc
  · rw [pieces_of_isOperator hc] at h
    exact matches_combinator_of_isOperator hc h hsolid hrest
  · rw [pieces_of_isBlank hc, spells_map_stored_iff] at h
    subst h
    rw [matches_combinator_iff_firstOf, combinators, matches_firstOf_append_iff,
      refuses_firstOf_iff]
    right
    constructor
    · intro q hq
      obtain ⟨op, hop, rfl⟩ := List.mem_map.1 hq
      exact refuses_operator ⟨c.tokens, rest, rfl, hc.2.1, by simp, rfl⟩ hsolid (hrest op hop)
    · simp [matches_descendantCombinator_iff, hc, hsolid]

theorem eq_dropWhile_of_matches_combinator {c : Combinator}
    (hno : NoOperator dialect (tokens.dropWhile Token.isInsignificant))
    (h : (combinator dialect).Matches tokens c rest) :
    rest = tokens.dropWhile Token.isInsignificant := by
  obtain ⟨p, hp, hmatches⟩ := (matches_combinator_iff_firstOf.1 h).exists_mem_firstOf
  rcases List.mem_append.1 hp with hp | hp
  · obtain ⟨op, hop, rfl⟩ := List.mem_map.1 hp
    exact absurd (refuses_operator spells_gap_dropWhile solid_dropWhile (hno op hop))
      hmatches.not_refuses
  · obtain rfl := List.mem_singleton.1 hp
    obtain ⟨hblank, rfl, hsolid⟩ := matches_descendantCombinator_iff.1 hmatches
    exact (dropWhile_append_of_solid hblank.2.1 hsolid).symm

/-! ## What follows a compound -/

/-- A compound begins with no delimiter of a combinator, but for the bar of a namespace. -/
theorem head_of_beginsCompound (h : beginsCompound tokens = true) :
    ∃ t ts, tokens = t :: ts ∧ t.isInsignificant = false ∧
      ((∀ c ∈ ['>', '+', '~', '|', '/'], t.isDelim c = false) ∨
        t.isDelim '|' = true ∧ ∃ u us, ts = u :: us ∧ u.isDelim '|' = false) := by
  cases tokens with
  | nil => simp [beginsCompound, beginsType] at h
  | cons t ts =>
      refine ⟨t, ts, rfl, ?_⟩
      simp only [beginsCompound, beginsType, List.head?_cons, Option.any_some,
        Bool.or_eq_true] at h
      rcases h with ((((h | h) | h) | h) | h) | h
      · obtain ⟨_, _, rfl⟩ := Token.isIdent_iff.1 h
        exact ⟨rfl, .inl (by simp [Token.isDelim])⟩
      · obtain ⟨_, rfl⟩ := Token.isDelim_iff.1 h
        exact ⟨rfl, .inl (by simp [Token.isDelim])⟩
      · obtain ⟨_, _, rfl⟩ := Token.isAtKeyword_iff.1 h
        exact ⟨rfl, .inl (by simp [Token.isDelim])⟩
      · obtain ⟨_, _, _, rfl⟩ := Token.isFunction_iff.1 h
        exact ⟨rfl, .inl (by simp [Token.isDelim])⟩
      · cases ts with
        | nil => cases h
        | cons u us =>
            simp only [barThen, Bool.and_eq_true, Bool.or_eq_true] at h
            obtain ⟨hbar, hu⟩ := h
            obtain ⟨span, rfl⟩ := Token.isDelim_iff.1 hbar
            refine ⟨rfl, .inr ⟨rfl, u, us, rfl, ?_⟩⟩
            rcases hu with hu | hu
            · obtain ⟨_, _, rfl⟩ := Token.isIdent_iff.1 hu
              rfl
            · obtain ⟨_, rfl⟩ := Token.isDelim_iff.1 hu
              rfl
      · rcases beginsPart_iff.1 h with ⟨_, _, _, rfl⟩ | ⟨_, rfl⟩ | ⟨_, rfl⟩ | ⟨_, rfl⟩ <;>
          exact ⟨rfl, .inl (by simp [Token.isDelim])⟩

theorem solid_of_beginsCompound (h : beginsCompound tokens = true) : Solid tokens := by
  obtain ⟨t, ts, rfl, ht, -⟩ := head_of_beginsCompound h
  exact solid_cons_iff.2 ht

theorem noOperator_of_beginsCompound (h : beginsCompound tokens = true) :
    NoOperator dialect tokens := by
  intro op hop
  obtain ⟨c, cs, hc, hmem⟩ := Dialect.exists_head_of_operator hop
  obtain ⟨t, ts, rfl, -, ht | ⟨hbar, u, us, rfl, hu⟩⟩ := head_of_beginsCompound h
  · rw [hc]
    exact refuses_spelled_of_head (by simpa using ht c hmem)
  · obtain ⟨span, rfl⟩ := Token.isDelim_iff.1 hbar
    by_cases hhead : c = '|'
    · have hcolumn := Dialect.eq_column_of_head hop (by simp [hc, hhead])
      rw [hcolumn]
      simp [spelled, hu]
    · rw [hc]
      exact refuses_spelled_of_head (by simp [Token.isDelim, Ne.symm hhead])

/-- Only blank text stands before a comma or the end. -/
def closes (tokens : List Token) : Bool :=
  (tokens.dropWhile Token.isInsignificant).head?.all fun t => t.isComma || t.isEof

theorem beginsCompound_of_closes (h : closes tokens = true) :
    beginsCompound (tokens.dropWhile Token.isInsignificant) = false := by
  unfold closes at h
  cases hdrop : tokens.dropWhile Token.isInsignificant with
  | nil => rfl
  | cons t ts =>
      rw [hdrop, List.head?_cons, Option.all_some, Bool.or_eq_true] at h
      have ht : (∃ span, t = .atom .comma span) ∨ ∃ span, t = .atom .eof span :=
        h.imp Token.isComma_iff.1 Token.isEof_iff.1
      rcases ht with ⟨span, rfl⟩ | ⟨span, rfl⟩ <;> cases ts <;> rfl

theorem noOperator_of_closes (h : closes tokens = true) :
    NoOperator dialect (tokens.dropWhile Token.isInsignificant) := by
  intro op hop
  obtain ⟨c, cs, hc, -⟩ := Dialect.exists_head_of_operator hop
  rw [hc]
  apply refuses_spelled_of_head
  intro t ht
  rw [closes, ht, Option.all_some, Bool.or_eq_true, Token.isComma_iff, Token.isEof_iff] at h
  rcases h with ⟨span, rfl⟩ | ⟨span, rfl⟩ <;> rfl

theorem beginsPart_of_isInsignificant {t : Token} (h : t.isInsignificant = true) :
    beginsPart t = false ∧ t.isDelim '|' = false := by
  constructor
  · rw [Bool.eq_false_iff]
    intro ht
    rw [isInsignificant_of_beginsPart ht] at h
    cases h
  · rw [Bool.eq_false_iff]
    intro ht
    obtain ⟨span, rfl⟩ := Token.isDelim_iff.1 ht
    cases h

theorem beginsPart_of_closes (h : closes rest = true) :
    ∀ t ∈ rest.head?, beginsPart t = false ∧ t.isDelim '|' = false := by
  cases rest with
  | nil => simp
  | cons t ts =>
      simp only [List.head?_cons, Option.mem_some_iff, forall_eq']
      cases ht : t.isInsignificant with
      | true => exact beginsPart_of_isInsignificant ht
      | false =>
          rw [closes, solid_cons_iff.2 ht, List.head?_cons, Option.all_some, Bool.or_eq_true,
            Token.isComma_iff, Token.isEof_iff] at h
          rcases h with ⟨span, rfl⟩ | ⟨span, rfl⟩ <;> exact ⟨rfl, rfl⟩

theorem compoundEnds_of_closes {c : Compound} (h : closes rest = true) : CompoundEnds g c rest := by
  apply compoundEnds_of_head
  · exact fun t ht => (beginsPart_of_closes h t ht).1
  · exact fun _ _ selector _ =>
      typeEnds_of_head selector fun t ht => (beginsPart_of_closes h t ht).2

theorem refuses_link_of_closes (h : closes rest = true) : (link g).Refuses rest := by
  rw [link, refuses_bind_iff]
  rcases matches_or_refuses_or_overflows (combinator g.dialect) rest with
    ⟨c, rest', hmatches⟩ | hrefuses | hover
  · right
    refine ⟨c, rest', hmatches, ?_⟩
    rw [refuses_bind_iff]
    left
    rw [eq_dropWhile_of_matches_combinator (noOperator_of_closes h) hmatches]
    exact refuses_compound (beginsCompound_of_closes h)
  · exact .inl hrefuses
  · exact absurd hover not_overflows_combinator

theorem compoundEnds_cons_of_isInsignificant {c : Compound} {t : Token}
    (h : t.isInsignificant = true) : CompoundEnds g c (t :: rest) := by
  obtain ⟨hpart, hbar⟩ := beginsPart_of_isInsignificant h
  apply compoundEnds_of_head
  · simpa using hpart
  · exact fun _ _ selector _ => typeEnds_of_head selector (by simpa using hbar)

theorem behind_free (left : Compound) (c : Combinator) :
    Layout.free.behind left c = [.gap (left.isLoneAsterisk && c.kind = .column)] := by
  unfold Layout.behind
  split
  · rename_i h
    simp only [Layout.free, h]
  · rename_i h
    simp only [Layout.free, Bool.eq_false_iff.2 h]

/-- Two bars do not make a namespace of the name before them, but of an asterisk they do. -/
theorem typeEnds_bars {left : Compound} {selector : TypeSelector} {bar bar' : Token}
    (h : left.isLoneAsterisk = false) (hselector : selector ∈ left.typeSelector)
    (hparts : left.subclasses = []) (helements : left.pseudoElements = [])
    (hbar : bar'.isDelim '|' = true) : TypeEnds selector (bar :: bar' :: rest) := by
  obtain ⟨span, rfl⟩ := Token.isDelim_iff.1 hbar
  obtain ⟨typeSelector, parts, elements⟩ := left
  obtain rfl : typeSelector = some selector := hselector
  obtain rfl : parts = [] := hparts
  obtain rfl : elements = [] := helements
  match selector with
  | .universal none _ => cases h
  | .universal (some _) _ => trivial
  | .name ⟨none, _⟩ => simp [TypeEnds, barThen, Token.isIdent, Token.isDelim]
  | .name ⟨some _, _⟩ => trivial
  | .atKeyword _ => trivial
  | .xpath _ => trivial

/-- Every combinator may follow a compound, but a column combinator only behind a gap if the
compound is a lone asterisk. -/
theorem compoundEnds_of_spells_combinator {left : Compound} {c : Combinator}
    (hc : c.WellFormed dialect)
    (h : Spells (c.pieces .free (Layout.free.behind left c)) tokens rest) :
    CompoundEnds g left tokens := by
  rcases hc with hc | hc
  · rw [pieces_of_isOperator hc, behind_free] at h
    simp only [spells_append_iff, spells_map_stored_iff] at h
    obtain ⟨middle, ⟨blank, _, rfl, hblank, hneeded, rfl⟩, after, rfl, -⟩ := h
    cases blank with
    | cons t ts => exact compoundEnds_cons_of_isInsignificant (hblank t List.mem_cons_self)
    | nil =>
        obtain ⟨symbol, hop, hspelled⟩ := hc
        obtain ⟨d, ds, hsymbol, hd⟩ := Dialect.exists_head_of_operator hop
        obtain rfl : symbol = d :: ds := hsymbol
        obtain ⟨t, ts, ht, hts, htokens⟩ := List.forall₂_cons_left_iff.1 hspelled
        rw [List.nil_append, htokens, List.cons_append]
        obtain ⟨span, rfl⟩ := Token.isDelim_iff.1 ht
        apply compoundEnds_of_head
        · simp only [List.mem_cons, List.not_mem_nil, or_false] at hd
          rcases hd with rfl | rfl | rfl | rfl | rfl <;> simp [beginsPart, Token.isHash,
            Token.isDelim, Token.isLeftBracket, Token.isColon]
        · intro hparts helements selector hselector
          by_cases hbar : d = '|'
          · -- the first of two bars: the gap is empty, so the compound is no lone asterisk
            subst hbar
            obtain ⟨hkind, hds⟩ := Prod.mk.inj (Dialect.eq_column_of_head hop rfl)
            obtain rfl : ds = ['|'] := by simpa using hds
            obtain ⟨bar, _, hbar, hnil, rfl⟩ := List.forall₂_cons_left_iff.1 hts
            have hlone : left.isLoneAsterisk = false := by simpa [hkind] using hneeded
            exact typeEnds_bars hlone hselector hparts helements hbar
          · apply typeEnds_of_head
            simpa [Token.isDelim] using hbar
  · rw [pieces_of_isBlank hc, spells_map_stored_iff] at h
    obtain ⟨-, hblank, t, ht, -⟩ := hc
    obtain ⟨u, us, htokens⟩ := List.exists_cons_of_ne_nil (List.ne_nil_of_mem ht)
    rw [h, htokens]
    exact compoundEnds_cons_of_isInsignificant (hblank u (by simp [htokens]))

/-! ## Chains -/

theorem tokens_ne_nil_of_wellFormed {c : Combinator} (h : c.WellFormed dialect) :
    c.tokens ≠ [] := by
  rcases h with ⟨symbol, hop, hspelled⟩ | ⟨-, -, t, ht, -⟩
  · obtain ⟨d, ds, hsymbol, -⟩ := Dialect.exists_head_of_operator hop
    obtain rfl : symbol = d :: ds := hsymbol
    obtain ⟨t, ts, -, -, htokens⟩ := List.forall₂_cons_left_iff.1 hspelled
    simp [htokens]
  · exact List.ne_nil_of_mem ht

theorem consumes_combinator : (combinator dialect).Consumes := by
  intro tokens c rest h
  obtain ⟨hc, hspells, -⟩ := spells_of_matches_combinator h
  have hpos : 0 < c.tokens.length := List.length_pos_of_ne_nil (tokens_ne_nil_of_wellFormed hc)
  have hle : c.tokens.length ≤ (c.pieces .free [.gap false]).countP Piece.isToken := by
    unfold Combinator.pieces
    have hstored : (c.tokens.map Piece.stored).countP Piece.isToken = c.tokens.length := by
      rw [List.countP_map]
      exact congrFun List.countP_true c.tokens
    split
    · rw [List.countP_append, List.countP_append]
      omega
    · omega
  have := hspells.length_le
  omega

theorem consumes_link (hg : g.Sealed) : (link g).Consumes := by
  intro tokens pair rest h
  simp only [link, matches_bind_iff, matches_pure_iff] at h
  obtain ⟨c, after, hc, next, _, hnext, -, rfl⟩ := h
  have hlt := consumes_combinator _ _ _ hc
  obtain ⟨-, -, hspells, -⟩ := (matches_compound_iff hg).1 hnext
  have hle := hspells.length_le
  omega

/-- A chain is read as its first compound, and then as a chain behind each combinator. -/
theorem matches_complexSelector_iff (hg : g.Sealed) {chain : Complex} :
    (complexSelector g).Matches tokens chain rest ↔
      ∃ first middle, (compound g).Matches tokens first middle ∧
        (chain = .last first ∧ middle = rest ∧ (link g).Refuses rest ∨
          ∃ c right after, chain = .link first c right ∧
            (combinator g.dialect).Matches middle c after ∧
              (complexSelector g).Matches after right rest) := by
  simp only [complexSelector, matches_bind_iff, matches_pure_iff]
  constructor
  · rintro ⟨first, middle, hfirst, links, _, hlinks, rfl, rfl⟩
    refine ⟨first, middle, hfirst, ?_⟩
    rcases (consumes_link hg).cases_many hlinks with
      ⟨rfl, rfl, hrefuses⟩ | ⟨⟨c, next⟩, links, m, rfl, hlink, hlinks⟩
    · exact .inl ⟨rfl, rfl, hrefuses⟩
    · right
      simp only [link, matches_bind_iff, matches_pure_iff, Prod.mk.injEq] at hlink
      obtain ⟨c', after, hc, next', _, hnext, ⟨rfl, rfl⟩, rfl⟩ := hlink
      exact ⟨c', _, after, rfl, hc, next', _, hnext, links, _, hlinks, rfl, rfl⟩
  · rintro ⟨first, middle, hfirst, ⟨rfl, rfl, hrefuses⟩ |
      ⟨c, _, after, rfl, hc, next, m, hnext, links, _, hlinks, rfl, rfl⟩⟩
    · exact ⟨first, middle, hfirst, [], middle, hrefuses.many, rfl, rfl⟩
    · have hlink : (link g).Matches middle (c, next) m := by
        simp only [link, matches_bind_iff, matches_pure_iff]
        exact ⟨c, after, hc, next, m, hnext, rfl, rfl⟩
      exact ⟨first, middle, hfirst, (c, next) :: links, _,
        (consumes_link hg).many_cons hlink hlinks, rfl, rfl⟩

theorem CompoundEnds.head_of_isLoneAsterisk {left : Compound} (hends : CompoundEnds g left rest)
    (h : left.isLoneAsterisk = true) : ∀ t ∈ rest.head?, t.isDelim '|' = false := by
  obtain ⟨asterisk, rfl⟩ := Compound.eq_of_isLoneAsterisk h
  exact hends.typeSelector rfl rfl _ rfl

theorem spells_combinator_behind {left : Compound} {c : Combinator} (hc : c.WellFormed dialect)
    (h : Spells (c.pieces .free [.gap false]) tokens rest) (hends : CompoundEnds g left tokens) :
    Spells (c.pieces .free (Layout.free.behind left c)) tokens rest := by
  rcases hc with hc | hc
  · rw [pieces_of_isOperator hc] at h ⊢
    rw [behind_free]
    simp only [spells_append_iff, spells_map_stored_iff] at h ⊢
    obtain ⟨middle, ⟨blank, _, rfl, hblank, -, rfl⟩, after, rfl, hbehind⟩ := h
    refine ⟨c.tokens ++ after, ⟨blank, _, rfl, hblank, ?_, rfl⟩, after, rfl, hbehind⟩
    rintro hneeded rfl
    simp only [Bool.and_eq_true, decide_eq_true_eq] at hneeded
    obtain ⟨bar, bar', htokens, hbar, -⟩ := hc.eq_bars_of_column hneeded.2
    have hhead := hends.head_of_isLoneAsterisk hneeded.1 bar (by simp [htokens])
    rw [hbar] at hhead
    cases hhead
  · rw [pieces_of_isBlank hc] at h ⊢
    exact h

theorem spells_of_matches_complexSelector (hg : g.Sealed) {chain : Complex}
    (h : (complexSelector g).Matches tokens chain rest) :
    chain.WellFormed g.dialect ∧ g.YieldsAll chain.calls ∧
      Spells (chain.pieces .free) tokens rest := by
  induction chain using Complex.compounds.induct generalizing tokens with
  | case1 left =>
      obtain ⟨first, middle, hfirst, ⟨heq, rfl, -⟩ | ⟨c, right, after, heq, -⟩⟩ :=
        (matches_complexSelector_iff hg).1 h
      · cases heq
        obtain ⟨hwell, hyields, hspells, -⟩ := (matches_compound_iff hg).1 hfirst
        exact ⟨hwell, by simpa [Complex.calls, Complex.compounds] using hyields, hspells⟩
      · cases heq
  | case2 left c right ih =>
      obtain ⟨first, middle, hfirst, ⟨heq, -⟩ | ⟨c', right', after, heq, hc, hright⟩⟩ :=
        (matches_complexSelector_iff hg).1 h
      · cases heq
      · cases heq
        obtain ⟨hwell, hyields, hspells, hends⟩ := (matches_compound_iff hg).1 hfirst
        obtain ⟨hcombinator, hspells', -⟩ := spells_of_matches_combinator hc
        obtain ⟨hwells, hyields', hspells''⟩ := ih hright
        refine ⟨⟨hwell, hcombinator, hwells⟩, ?_, ?_⟩
        · simp only [Complex.calls, Complex.compounds, List.flatMap_cons, yieldsAll_append]
          exact ⟨hyields, hyields'⟩
        · have hbehind := spells_combinator_behind hcombinator hspells' hends
          exact hspells.append (hbehind.append hspells'')

theorem beginsCompound_of_spells_complex {chain : Complex} (hchain : chain.WellFormed dialect)
    (h : Spells (chain.pieces .free) tokens rest) : beginsCompound tokens = true := by
  cases chain with
  | last left => exact beginsCompound_of_spells hchain h
  | link left c right =>
      obtain ⟨middle, hleft, -⟩ := spells_append_iff.1 h
      exact beginsCompound_of_spells hchain.1 hleft

theorem matches_complexSelector (hg : g.Sealed) {chain : Complex}
    (hchain : chain.WellFormed g.dialect) (hyields : g.YieldsAll chain.calls)
    (h : Spells (chain.pieces .free) tokens rest) (hrest : closes rest = true) :
    (complexSelector g).Matches tokens chain rest := by
  induction chain using Complex.compounds.induct generalizing tokens with
  | case1 left =>
      have hleft : (compound g).Matches tokens left rest := by
        apply (matches_compound_iff hg).2
        refine ⟨hchain, ?_, h, compoundEnds_of_closes hrest⟩
        simpa [Complex.calls, Complex.compounds] using hyields
      apply (matches_complexSelector_iff hg).2
      exact ⟨left, rest, hleft, .inl ⟨rfl, rfl, refuses_link_of_closes hrest⟩⟩
  | case2 left c right ih =>
      obtain ⟨hwell, hcombinator, hwells⟩ := hchain
      simp only [Complex.calls, Complex.compounds, List.flatMap_cons, yieldsAll_append] at hyields
      obtain ⟨middle, hspells, hspells'⟩ := spells_append_iff.1 h
      obtain ⟨after, hbehind, hspells''⟩ := spells_append_iff.1 hspells'
      have hleft : (compound g).Matches tokens left middle :=
        (matches_compound_iff hg).2
          ⟨hwell, hyields.1, hspells, compoundEnds_of_spells_combinator hcombinator hbehind⟩
      have hbegins := beginsCompound_of_spells_complex hwells hspells''
      have hc : (combinator g.dialect).Matches middle c after := by
        apply matches_combinator hcombinator _ (solid_of_beginsCompound hbegins)
          (noOperator_of_beginsCompound hbegins)
        rw [behind_free] at hbehind
        exact (Layout.Within.refl Fills.compatible _).combinator (Fills.gap_of_gap _) c _ _ hbehind
      apply (matches_complexSelector_iff hg).2
      exact ⟨left, middle, hleft, .inr ⟨c, right, after, rfl, hc, ih hwells hyields.2 hspells''⟩⟩

end Grammar

end CssSelectors
