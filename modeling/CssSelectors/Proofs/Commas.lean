import CssSelectors.Proofs.Stopping

/-!
# Lists and their segments

No selector reads a comma outside of its functions, so the tokens before a comma are read
as if they were all. A list is therefore read segment by segment, and the first segment
that is no selector decides how the whole list fails.
-/

namespace CssSelectors

theorem Token.isInsignificant_of_isComma {c : Token} (hc : c.isComma = true) :
    c.isInsignificant = false := by
  obtain ⟨span, rfl⟩ := Token.isComma_iff.1 hc
  rfl

namespace Grammar

open Production

variable {g : Grammar} {tokens rest segment more : List Token} {c : Token}

/-! ## Segments of a list -/

def segmentSelector (g : Grammar) : Production Selector := do
  skip
  selector g

theorem stopsAt_segmentSelector {dialect : Dialect} {levels : Nat} :
    StopsAt .comma (segmentSelector (ofLevels dialect levels))
      (segmentSelector (ofLevels dialect levels)) :=
  (StopsAt.congruence (.inl rfl)).skip.bind fun _ => stopsAt_selector (.inl rfl)

theorem wholeList_eq (g : Grammar) :
    wholeList g = segmentSelector g >>= fun s => (s :: ·) <$> iterate (nextItem (selector g)) := by
  rw [wholeList, segmentSelector, bind_assoc, selectorList_eq]
  simp only [bind_pure_eq_map]

theorem outcome_wholeList (g : Grammar) (tokens : List Token) :
    (wholeList g tokens).outcome =
      match (segmentSelector g tokens).outcome with
      | .matched s rest => ((iterate (nextItem (selector g)) rest).map (s :: ·)).outcome
      | .noMatch stuck => .noMatch stuck
      | .tooDeep => .tooDeep := by
  rw [wholeList_eq, outcome_bind]
  cases (segmentSelector g tokens).outcome <;> rfl

theorem subset_of_matches_segmentSelector (hg : g.Sealed) {s : Selector}
    (h : (segmentSelector g).Matches tokens s rest) : rest ⊆ tokens := by
  simp only [segmentSelector, matches_bind_iff, matches_skip_iff] at h
  obtain ⟨_, _, rfl, hs⟩ := h
  obtain ⟨-, -, hspells⟩ := spells_of_matches_selector hg solid_dropWhile hs
  obtain ⟨taken, htokens, -⟩ := spells_iff_exists_taken.1 hspells
  have hsuffix : rest <:+ tokens.dropWhile Token.isInsignificant := ⟨taken, htokens.symm⟩
  exact (hsuffix.trans (List.dropWhile_suffix _)).subset

theorem refuses_comma_of_head
    (h : ∀ t ∈ (tokens.dropWhile Token.isInsignificant).head?, t.isComma = false) :
    comma.Refuses tokens := by
  refine refuses_bind_iff.2 (.inr ⟨(), _, matches_skip_iff.2 rfl, ?_⟩)
  cases hdrop : tokens.dropWhile Token.isInsignificant with
  | nil => exact refuses_token_nil
  | cons t ts => exact refuses_token_cons_iff.2 (h t (by simp [hdrop]))

theorem outcome_tail_of_refuses (h : comma.Refuses tokens) :
    (iterate (nextItem (selector g)) tokens).outcome = .matched [] tokens :=
  Matches.iterate_nil (matches_nextItem_none_iff.2 ⟨h, rfl⟩)

theorem optional_comma_eq {blank : List Token} (hblank : ∀ t ∈ blank, t.isInsignificant = true)
    (hc : c.isComma = true) :
    optional comma (blank ++ c :: more) = ⟨.matched (some c) more, some more.length, []⟩ := by
  have hsolid : Solid (c :: more) := solid_cons_iff.2 (Token.isInsignificant_of_isComma hc)
  have hskip : skip (blank ++ c :: more) =
      ⟨.matched () (c :: more), if blank.isEmpty then none else some (more.length + 1), []⟩ := by
    rw [skip, bind_pure_eq_map]
    change (insignificant (blank ++ c :: more)).map (fun _ => ()) = _
    rw [insignificant, takeWhile_append_of_solid hblank hsolid,
      dropWhile_append_of_solid hblank hsolid]
    rfl
  have hcomma : comma (blank ++ c :: more) = ⟨.matched c more, some more.length, []⟩ := by
    have hmatched : (skip (blank ++ c :: more)).outcome = .matched () (c :: more) := by rw [hskip]
    rw [comma, bind_eq_of_matched hmatched, hskip, token]
    cases blank <;> simp [Reading.after, Reading.least, hc]
  have hrefuses : ¬ (some <$> comma).Refuses (blank ++ c :: more) := by
    rw [refuses_map_iff]
    rintro ⟨stuck, hstuck⟩
    rw [hcomma] at hstuck
    cases hstuck
  unfold Production.optional
  rw [orElse_eq_of_not_refuses hrefuses]
  change (comma (blank ++ c :: more)).map some = _
  rw [hcomma]
  rfl

theorem tail_of_comma (hg : g.Sealed) {blank : List Token}
    (hblank : ∀ t ∈ blank, t.isInsignificant = true) (hc : c.isComma = true) :
    iterate (nextItem (selector g)) (blank ++ c :: more) =
      (wholeList g more).after (optional comma (blank ++ c :: more)) := by
  have hoptional : (optional comma (blank ++ c :: more)).outcome = .matched (some c) more := by
    rw [optional_comma_eq hblank hc]
  have hnext : nextItem (selector g) (blank ++ c :: more) =
      ((segmentSelector g more).map some).after (optional comma (blank ++ c :: more)) := by
    rw [nextItem, bind_eq_of_matched hoptional]
    simp only [← bind_pure_eq_map]
    rw [← bind_assoc, bind_pure_eq_map]
    rfl
  rw [wholeList_eq]
  cases hs : (segmentSelector g more).outcome with
  | matched s rest =>
      have hsome :
          (nextItem (selector g) (blank ++ c :: more)).outcome = .matched (some s) rest := by
        rw [hnext, Reading.after, Reading.map, hs]
      have hlt := shortens_nextItem hg _ _ _ hsome
      rw [iterate_eq_of_lt hsome hlt, bind_eq_of_matched hs, hnext, after_after]
      rfl
  | noMatch stuck =>
      have hstuck : (nextItem (selector g) (blank ++ c :: more)).outcome = .noMatch stuck := by
        rw [hnext, Reading.after, Reading.map, hs]
      rw [iterate_eq_of_noMatch hstuck, hnext, bind_eq_of_noMatch hs]
      rfl
  | tooDeep =>
      have hdeep : (nextItem (selector g) (blank ++ c :: more)).outcome = .tooDeep := by
        rw [hnext, Reading.after, Reading.map, hs]
      rw [iterate_eq_of_tooDeep hdeep, hnext, bind_eq_of_tooDeep hs]
      rfl

theorem outcome_wholeList_segment (hg : g.Sealed) (hsegment : ∀ t ∈ segment, t.isComma = false) :
    (wholeList g segment).outcome = ((segmentSelector g segment).map ([·])).outcome := by
  rw [outcome_wholeList]
  cases hs : (segmentSelector g segment).outcome with
  | matched s rest =>
      have hsubset : rest ⊆ segment := subset_of_matches_segmentSelector hg hs
      have hrefuses : comma.Refuses rest := by
        refine refuses_comma_of_head fun t ht => hsegment t (hsubset ?_)
        exact (List.dropWhile_suffix _).subset (List.mem_of_mem_head? ht)
      simp [Reading.map, hs, outcome_tail_of_refuses hrefuses]
  | noMatch stuck => simp [Reading.map, hs]
  | tooDeep => simp [Reading.map, hs]

/-- A segment that is a selector but for blank text leaves the rest of the list to be read, and
any other is where reading ends. -/
theorem outcome_wholeList_append (hg : g.Sealed)
    (hstops : StopsAt .comma (segmentSelector g) (segmentSelector g))
    (hsegment : ∀ t ∈ segment, t.isComma = false) (hc : c.isComma = true) :
    (wholeList g (segment ++ c :: more)).outcome =
      match (segmentSelector g segment).outcome with
      | .matched s rest =>
        if rest.all Token.isInsignificant then ((wholeList g more).map (s :: ·)).outcome
        else .matched [s] (rest ++ c :: more)
      | .noMatch stuck => .noMatch (stuck ++ c :: more)
      | .tooDeep => .tooDeep := by
  have houtcome : (segmentSelector g (segment ++ c :: more)).outcome =
      (segmentSelector g segment).outcome.append (c :: more) := by
    obtain ⟨span, rfl⟩ := Token.isComma_iff.1 hc
    exact (hstops segment span more).outcome
  rw [outcome_wholeList, houtcome]
  cases hs : (segmentSelector g segment).outcome with
  | matched s rest =>
      simp only [Outcome.append]
      split
      · next hblank =>
          rw [Reading.map, tail_of_comma hg (List.all_eq_true.1 hblank) hc, Reading.map,
            Reading.after]
      · next hblank =>
          have hsubset : rest ⊆ segment := subset_of_matches_segmentSelector hg hs
          have hrefuses : comma.Refuses (rest ++ c :: more) := by
            apply refuses_comma_of_head
            rw [Token.dropWhile_append_solid (Token.isInsignificant_of_isComma hc)]
            obtain ⟨t, ts, hdrop⟩ := List.exists_cons_of_ne_nil
              (mt List.dropWhile_eq_nil_iff.1 (mt List.all_eq_true.2 hblank))
            rw [hdrop]
            rintro _ ⟨⟩
            have ht : t ∈ rest.dropWhile Token.isInsignificant := by simp [hdrop]
            exact hsegment t (hsubset ((List.dropWhile_suffix _).subset ht))
          simp [Reading.map, outcome_tail_of_refuses hrefuses]
  | noMatch stuck => rfl
  | tooDeep => rfl

end Grammar

/-! ## Lists and their segments -/

namespace Token

def segments (tokens : List Token) : List (List Token) :=
  tokens.splitOnP isComma

variable {segment more : List Token} {c : Token}

theorem segments_of_forall (h : ∀ t ∈ segment, t.isComma = false) : segments segment = [segment] :=
  List.splitOnP_eq_singleton h

theorem segments_append (h : ∀ t ∈ segment, t.isComma = false) (hc : c.isComma = true) :
    segments (segment ++ c :: more) = segment :: segments more :=
  List.splitOnP_append_cons_of_forall_mem h c hc more

theorem segments_induction {motive : List Token → Prop}
    (last : ∀ segment, (∀ t ∈ segment, t.isComma = false) → motive segment)
    (append : ∀ segment c more, (∀ t ∈ segment, t.isComma = false) → c.isComma = true →
      motive more → motive (segment ++ c :: more)) (tokens : List Token) : motive tokens := by
  induction hn : tokens.length using Nat.strongRecOn generalizing tokens with
  | ind n ih =>
      have hsplit : tokens.takeWhile (!·.isComma) ++ tokens.dropWhile (!·.isComma) = tokens :=
        List.takeWhile_append_dropWhile
      have hsegment : ∀ t ∈ tokens.takeWhile (!·.isComma), t.isComma = false := by
        intro t ht
        simpa using List.all_eq_true.1 List.all_takeWhile t ht
      cases hdrop : tokens.dropWhile (!·.isComma) with
      | nil =>
          rw [hdrop, List.append_nil] at hsplit
          exact last tokens (hsplit ▸ hsegment)
      | cons c more =>
          have hc : c.isComma = true := by
            have := List.head?_dropWhile_not (fun t : Token => !t.isComma) tokens
            rw [hdrop] at this
            simpa using this
          rw [hdrop] at hsplit
          rw [← hsplit] at hn ⊢
          refine append _ c more hsegment hc (ih more.length ?_ more rfl)
          simp only [List.length_append, List.length_cons] at hn
          omega

end Token

theorem Token.atEnd_iff_of_forall {tokens : List Token} (h : ∀ t ∈ tokens, t.isEof = false) :
    Token.atEnd tokens = true ↔ tokens.all Token.isInsignificant = true := by
  rw [List.all_eq_true, ← List.dropWhile_eq_nil_iff, Token.atEnd]
  cases hdrop : tokens.dropWhile Token.isInsignificant with
  | nil => simp
  | cons t ts =>
      have ht : t ∈ tokens := (List.dropWhile_suffix Token.isInsignificant).subset (by simp [hdrop])
      simp [h t ht]

theorem Token.atEnd_append_comma {rest more : List Token} {c : Token}
    (h : ∀ t ∈ rest, t.isEof = false) (hc : c.isComma = true) :
    Token.atEnd (rest ++ c :: more) = false := by
  apply Token.atEnd_append_solid h (isInsignificant_of_isComma hc)
  obtain ⟨span, rfl⟩ := Token.isComma_iff.1 hc
  rfl

section Segments

open Production

variable {options : Options} {segment more tokens : List Token} {c : Token}

/-- The three ways a list with a comma goes on behind the segment before it: with the list behind
the comma if the segment is a selector, and else not at all. -/
theorem parseTokens_append_cases (hsegment : ∀ t ∈ segment, t.isComma = false)
    (heof : ∀ t ∈ segment, t.isEof = false) (hc : c.isComma = true) :
    (∃ s, parseTokens options segment = .ok [s] ∧
      (∀ list, parseTokens options (segment ++ c :: more) = .ok list ↔
        ∃ others, s :: others = list ∧ parseTokens options more = .ok others) ∧
      ∀ limit, parseTokens options (segment ++ c :: more) = .error (.nestingTooDeep limit) ↔
        parseTokens options more = .error (.nestingTooDeep limit)) ∨
    (parseTokens options segment = .error (.nestingTooDeep options.maxDepth) ∧
      parseTokens options (segment ++ c :: more) = .error (.nestingTooDeep options.maxDepth)) ∨
    (IsMalformed options segment ∧ IsMalformed options (segment ++ c :: more)) := by
  have hg := Grammar.sealed_ofLevels options.dialect options.maxDepth
  have halone := Grammar.outcome_wholeList_segment hg hsegment
  have hwhole : ((Grammar.ofLevels _ _).wholeList (segment ++ c :: more)).outcome = _ :=
    Grammar.outcome_wholeList_append hg Grammar.stopsAt_segmentSelector hsegment hc
  rw [Reading.map] at halone
  simp only [parseTokens_eq_ok_iff_matches, parseTokens_eq_tooDeep_iff, isMalformed_iff_outcome]
  cases hs : ((Grammar.ofLevels options.dialect options.maxDepth).segmentSelector
    segment).outcome with
  | matched s rest =>
      have hsubset := Grammar.subset_of_matches_segmentSelector hg hs
      have hrest : ∀ t ∈ rest, t.isEof = false := fun t ht => heof t (hsubset ht)
      rw [hs] at halone hwhole
      by_cases hblank : rest.all Token.isInsignificant = true
      · simp only [hblank, if_true] at hwhole
        have hmap : ((Grammar.ofLevels _ _).wholeList (segment ++ c :: more)).outcome =
            (((s :: ·) <$> (Grammar.ofLevels _ _).wholeList) more).outcome := hwhole
        refine .inl ⟨s, ⟨rest, halone, (Token.atEnd_iff_of_forall hrest).2 hblank⟩, ?_, ?_⟩
        · intro list
          unfold Matches
          simp only [hmap]
          constructor
          · rintro ⟨left, hleft, hend⟩
            obtain ⟨others, rfl, hothers⟩ := matches_map_iff.1 hleft
            exact ⟨others, rfl, left, hothers, hend⟩
          · rintro ⟨others, rfl, left, hothers, hend⟩
            exact ⟨left, matches_map_iff.2 ⟨others, rfl, hothers⟩, hend⟩
        · intro limit
          unfold Overflows
          rw [hmap]
          exact and_congr_left fun _ => overflows_map_iff
      · have hend : Token.atEnd rest = false := by
          rwa [Bool.eq_false_iff, ne_eq, Token.atEnd_iff_of_forall hrest]
        simp only [hblank] at hwhole
        exact .inr (.inr ⟨.inr ⟨[s], rest, halone, hend⟩,
          .inr ⟨[s], _, hwhole, Token.atEnd_append_comma hrest hc⟩⟩)
  | noMatch stuck =>
      rw [hs] at halone hwhole
      exact .inr (.inr ⟨.inl ⟨stuck, halone⟩, .inl ⟨_, hwhole⟩⟩)
  | tooDeep =>
      rw [hs] at halone hwhole
      exact .inr (.inl ⟨⟨halone, trivial⟩, hwhole, trivial⟩)

theorem parseTokens_segment_eq_ok (hsegment : ∀ t ∈ segment, t.isComma = false)
    {list : List Selector} (h : parseTokens options segment = .ok list) : ∃ s, list = [s] := by
  have hg := Grammar.sealed_ofLevels options.dialect options.maxDepth
  obtain ⟨rest, hmatches, -⟩ := parseTokens_eq_ok_iff_matches.1 h
  rw [Matches, Grammar.outcome_wholeList_segment hg hsegment] at hmatches
  obtain ⟨s, rfl, -⟩ := matches_map_iff.1 hmatches
  exact ⟨s, rfl⟩

theorem parseTokens_eq_ok_iff_segments (heof : ∀ t ∈ tokens, t.isEof = false)
    {list : List Selector} :
    parseTokens options tokens = .ok list ↔
      List.Forall₂ (fun segment s => parseTokens options segment = .ok [s])
        (Token.segments tokens) list := by
  induction tokens using Token.segments_induction generalizing list with
  | last segment hsegment =>
      rw [Token.segments_of_forall hsegment, List.forall₂_cons_left_iff]
      simp only [List.forall₂_nil_left_iff]
      constructor
      · intro h
        obtain ⟨s, rfl⟩ := parseTokens_segment_eq_ok hsegment h
        exact ⟨s, [], h, rfl, rfl⟩
      · rintro ⟨s, _, h, rfl, rfl⟩
        exact h
  | append segment c more hsegment hc ih =>
      obtain ⟨hfront, hback⟩ := List.forall_mem_append.1 heof
      have hmore : ∀ t ∈ more, t.isEof = false := (List.forall_mem_cons.1 hback).2
      rw [Token.segments_append hsegment hc, List.forall₂_cons_left_iff]
      simp only [← ih hmore]
      rcases parseTokens_append_cases hsegment hfront hc with
        ⟨s, hs, hok, -⟩ | ⟨hs, hwhole⟩ | ⟨hs, hwhole⟩
      · rw [hok]
        constructor
        · rintro ⟨others, rfl, hothers⟩
          exact ⟨s, others, hs, hothers, rfl⟩
        · rintro ⟨s', others, hs', hothers, rfl⟩
          rw [hs] at hs'
          cases hs'
          exact ⟨others, rfl, hothers⟩
      · simp [hs, hwhole]
      · obtain ⟨_, _, _, hs⟩ := hs
        obtain ⟨_, _, _, hwhole⟩ := hwhole
        simp [hs, hwhole]

theorem parseTokens_eq_tooDeep_iff_segments (heof : ∀ t ∈ tokens, t.isEof = false)
    (h : (Token.segments tokens).find? (fun segment => !(parseTokens options segment).isOk) =
      some segment) (limit : Nat) :
    parseTokens options tokens = .error (.nestingTooDeep limit) ↔
      parseTokens options segment = .error (.nestingTooDeep limit) := by
  induction tokens using Token.segments_induction with
  | last only honly =>
      rw [Token.segments_of_forall honly] at h
      obtain rfl := List.mem_singleton.1 (List.mem_of_find?_eq_some h)
      rfl
  | append first c more hfirst hc ih =>
      obtain ⟨hfront, hback⟩ := List.forall_mem_append.1 heof
      have hmore : ∀ t ∈ more, t.isEof = false := (List.forall_mem_cons.1 hback).2
      rw [Token.segments_append hfirst hc, List.find?_cons] at h
      rcases parseTokens_append_cases hfirst hfront hc with
        ⟨s, hs, -, hdeep⟩ | ⟨hs, hwhole⟩ | ⟨hs, hwhole⟩
      · rw [hs] at h
        rw [hdeep]
        exact ih hmore h
      · rw [hs] at h
        obtain rfl := Option.some.inj h
        rw [hs, hwhole]
      · obtain ⟨_, _, _, hs⟩ := hs
        obtain ⟨_, _, _, hwhole⟩ := hwhole
        rw [hs] at h
        obtain rfl := Option.some.inj h
        simp [hs, hwhole]

/-- A list is read as its segments are, each on its own: it has a selector for each of them, or
fails as the first of them that is no selector. -/
theorem parse_segments (options : Options) (tokens : List Token)
    (heof : ∀ t ∈ tokens, t.isEof = false) :
    (∀ list, parseTokens options tokens = .ok list ↔
      List.Forall₂ (fun segment s => parseTokens options segment = .ok [s])
        (Token.segments tokens) list) ∧
    ∀ segment, (Token.segments tokens).find?
        (fun segment => !(parseTokens options segment).isOk) = some segment →
      (parseTokens options tokens = .error (.nestingTooDeep options.maxDepth) ↔
        parseTokens options segment = .error (.nestingTooDeep options.maxDepth)) ∧
      (parseTokens options segment ≠ .error (.nestingTooDeep options.maxDepth) →
        IsMalformed options tokens) := by
  refine ⟨fun list => parseTokens_eq_ok_iff_segments heof, fun segment h => ?_⟩
  have hdeep := parseTokens_eq_tooDeep_iff_segments heof h options.maxDepth
  refine ⟨hdeep, fun hsegment => isMalformed_iff.2 ⟨fun list hlist => ?_, mt hdeep.1 hsegment⟩⟩
  -- a list would have a selector for every segment
  have hselectors := (parseTokens_eq_ok_iff_segments heof).1 hlist
  have hall : ∀ segment ∈ Token.segments tokens, (parseTokens options segment).isOk = true :=
    ((List.forall₂_and_left _ _).1
      (hselectors.imp fun _ _ hs => ⟨congrArg Except.isOk hs, hs⟩)).1
  have hfails := List.find?_some h
  rw [hall segment (List.mem_of_find?_eq_some h)] at hfails
  cases hfails

theorem parse_segments_tooDeep :
    parseTokens ⟨.standard, 0⟩
      [.atom (.ident "a") ⟨0, 1⟩, .atom .comma ⟨1, 2⟩, .atom .colon ⟨2, 3⟩,
        .function "not" [.atom (.ident "b") ⟨7, 8⟩] ⟨3, 9⟩, .atom .comma ⟨9, 10⟩,
        .atom (.delim '.') ⟨10, 11⟩] = .error (.nestingTooDeep 0) := by
  have hsegments := parse_segments ⟨.standard, 0⟩
    [.atom (.ident "a") ⟨0, 1⟩, .atom .comma ⟨1, 2⟩, .atom .colon ⟨2, 3⟩,
      .function "not" [.atom (.ident "b") ⟨7, 8⟩] ⟨3, 9⟩, .atom .comma ⟨9, 10⟩,
      .atom (.delim '.') ⟨10, 11⟩] (by decide)
  have hfirst := hsegments.2
    [.atom .colon ⟨2, 3⟩, .function "not" [.atom (.ident "b") ⟨7, 8⟩] ⟨3, 9⟩]
    (by with_unfolding_all rfl)
  exact hfirst.1.2 (by with_unfolding_all rfl)

end Segments

end CssSelectors
