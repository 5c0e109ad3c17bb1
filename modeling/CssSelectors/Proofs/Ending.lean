import CssSelectors.Proofs.Blame
import CssSelectors.Proofs.Commas

/-!
# The end of the input

The input ends with its last token or before the first one that ends the text, whatever
stands behind that. Lists and limits are the same either way. Errors are too, but for one
case: where a selector has begun and the tokens run out, the end of the text is blamed if
it is there, and else the last token.
-/

namespace CssSelectors

open Production

variable {options : Options} {tokens stuck rest : List Token} {t : Token}

/-! ## Tokens behind those that decide -/

namespace Token

variable {whole : List Token}

theorem headOrEnd_append (h : stuck ≠ []) (rest : List Token) :
    headOrEnd (whole ++ rest) (stuck ++ rest) = headOrEnd whole stuck := by
  obtain ⟨t, ts, rfl⟩ := List.exists_cons_of_ne_nil h
  rfl

/-- Tokens behind all that was left and looked at do not change which one is blamed. -/
theorem culprit_append (h : stuck ≠ []) (hsuffix : stuck <:+ whole) (unread : Option Nat)
    (rest : List Token) :
    culprit (whole ++ rest) (stuck ++ rest) (unread.map (· + rest.length)) =
      culprit whole stuck unread := by
  have hle := hsuffix.length_le
  cases unread with
  | none => exact headOrEnd_append h rest
  | some n =>
      have hiff : n + rest.length < (stuck ++ rest).length ↔ n < stuck.length := by
        rw [List.length_append]
        omega
      simp only [culprit, Option.map_some, hiff]
      split
      · next hn =>
          have hindex : (whole ++ rest).length - (n + rest.length) - 1 = whole.length - n - 1 := by
            rw [List.length_append]
            omega
          have hne : whole.drop (whole.length - n - 1) ≠ [] := by
            rw [ne_eq, List.drop_eq_nil_iff]
            omega
          rw [hindex, List.drop_append_of_le_length (by omega), headOrEnd_append hne]
      · exact headOrEnd_append h rest

theorem atEnd_append_eof (tokens behind : List Token) (span : Span) :
    atEnd (tokens ++ .atom .eof span :: behind) = atEnd tokens := by
  unfold atEnd
  rw [dropWhile_append_solid rfl]
  cases tokens.dropWhile isInsignificant <;> rfl

section Ended

variable (h : ∃ t ∈ tokens, t.isEof = true)
include h

theorem exists_eq_append_eof : ∃ front span back, tokens = front ++ .atom .eof span :: back := by
  obtain ⟨t, ht, heof⟩ := h
  obtain ⟨span, rfl⟩ := isEof_iff.1 heof
  obtain ⟨front, back, rfl⟩ := List.append_of_mem ht
  exact ⟨front, span, back, rfl⟩

theorem atEnd_append_of_isEof (rest : List Token) : atEnd (tokens ++ rest) = atEnd tokens := by
  obtain ⟨front, span, back, rfl⟩ := exists_eq_append_eof h
  rw [List.append_assoc, List.cons_append, atEnd_append_eof, atEnd_append_eof]

theorem headOrEnd_dropWhile_append_of_isEof (whole rest : List Token) :
    headOrEnd (whole ++ rest) ((tokens ++ rest).dropWhile isInsignificant) =
      headOrEnd whole (tokens.dropWhile isInsignificant) := by
  obtain ⟨front, span, back, rfl⟩ := exists_eq_append_eof h
  rw [List.append_assoc, List.cons_append, dropWhile_append_solid rfl, dropWhile_append_solid rfl,
    ← List.cons_append, ← List.append_assoc, headOrEnd_append (by simp)]

end Ended

end Token

theorem Production.DecidedBy.append_eq {α : Type} {p : Production α} {front : List Token}
    (h : p.DecidedBy front) (back : List Token) : p (front ++ back) = (p front).append back := by
  obtain ⟨reading, h⟩ := h
  have hnil : reading.append [] = reading := by
    obtain ⟨outcome, unread, kept⟩ := reading
    cases outcome <;> simp [Reading.append, Outcome.append]
  have hfront := h []
  rw [List.append_nil, hnil] at hfront
  rw [h, hfront]

theorem parseTokens_append_of_isEof (heof : ∃ t ∈ tokens, t.isEof = true) (rest : List Token) :
    parseTokens options (tokens ++ rest) = parseTokens options tokens := by
  have hheeds : (Grammar.ofLevels options.dialect options.maxDepth).wholeList.Heeds False :=
    Grammar.heeds_wholeList_ofLevels options.maxDepth
  have hdecided :
      (Grammar.ofLevels options.dialect options.maxDepth).wholeList.DecidedBy tokens := by
    refine (hheeds.decided tokens [] ?_ fun n _ => Nat.zero_le n).resolve_right fun h => h.1
    rwa [List.append_nil]
  unfold parseTokens readTokens
  simp only [hdecided.append_eq rest]
  cases houtcome :
      ((Grammar.ofLevels options.dialect options.maxDepth).wholeList tokens).outcome with
  | matched list left =>
      have hleft := (hheeds.advances.passes_of_matches houtcome).exists_isEof heof
      simp only [Reading.append, houtcome, Outcome.append, Token.atEnd_append_of_isEof hleft,
        Token.headOrEnd_dropWhile_append_of_isEof hleft]
  | noMatch stuck =>
      have hstuck := hheeds.advances.passes_of_noMatch houtcome
      have hne : stuck ≠ [] := by
        obtain ⟨t, ht, -⟩ := hstuck.exists_isEof heof
        exact List.ne_nil_of_mem ht
      simp only [Reading.append, houtcome, Outcome.append,
        Token.culprit_append hne hstuck.suffix]
  | tooDeep => simp only [Reading.append, houtcome, Outcome.append]

/-- The end of the text ends the input wherever it stands: what is behind it changes nothing,
and without it the same lists are read and the same limit is met. -/
theorem parse_up_to_eof (options : Options) (pre rest : List Token) (span : Span) :
    parseTokens options (pre ++ .atom .eof span :: rest) =
        parseTokens options (pre ++ [.atom .eof span]) ∧
      (∀ list, parseTokens options pre = .ok list ↔
        parseTokens options (pre ++ [.atom .eof span]) = .ok list) ∧
      ∀ limit, parseTokens options pre = .error (.nestingTooDeep limit) ↔
        parseTokens options (pre ++ [.atom .eof span]) = .error (.nestingTooDeep limit) := by
  have hstops : StopsAt .eof (Grammar.ofLevels options.dialect options.maxDepth).wholeList
      (Grammar.ofLevels options.dialect options.maxDepth).wholeList := Grammar.stopsAt_wholeList
  have houtcome := (hstops pre span []).outcome
  refine ⟨?_, ?_, ?_⟩
  · have heof : ∃ t ∈ pre ++ [.atom .eof span], t.isEof = true := ⟨.atom .eof span, by simp, rfl⟩
    rw [List.append_cons]
    exact parseTokens_append_of_isEof heof rest
  · intro list
    rw [parseTokens_eq_ok_iff_matches, parseTokens_eq_ok_iff_matches]
    unfold Matches
    rw [houtcome]
    cases ((Grammar.ofLevels options.dialect options.maxDepth).wholeList pre).outcome with
    | matched value left => simp [Outcome.append, Token.atEnd_append_eof]
    | noMatch stuck => simp [Outcome.append]
    | tooDeep => simp [Outcome.append]
  · intro limit
    rw [parseTokens_eq_tooDeep_iff, parseTokens_eq_tooDeep_iff]
    unfold Overflows
    rw [houtcome]
    cases ((Grammar.ofLevels options.dialect options.maxDepth).wholeList pre).outcome <;>
      simp [Outcome.append]

/-! ## Where tokens run out -/

namespace Token

variable {segment more : List Token} {c : Token}

/-- The tokens end where a selector may begin: there is nothing but blank text behind the last
comma, or at all. -/
def AwaitsSelector (tokens : List Token) : Prop :=
  ∀ segment ∈ (segments tokens).getLast?, segment.dropWhile isInsignificant = []

theorem awaitsSelector_segment_iff (hsegment : ∀ t ∈ segment, t.isComma = false) :
    AwaitsSelector segment ↔ segment.dropWhile isInsignificant = [] := by
  rw [AwaitsSelector, segments_of_forall hsegment]
  simp

theorem awaitsSelector_append_iff (hsegment : ∀ t ∈ segment, t.isComma = false)
    (hc : c.isComma = true) : AwaitsSelector (segment ++ c :: more) ↔ AwaitsSelector more := by
  obtain ⟨first, others, hmore⟩ : ∃ first others, segments more = first :: others :=
    List.exists_cons_of_ne_nil (List.splitOnP_ne_nil isComma more)
  rw [AwaitsSelector, AwaitsSelector, segments_append hsegment hc, hmore, List.getLast?_cons_cons]

end Token

namespace Grammar

variable {g : Grammar} {segment more : List Token} {c : Token}

theorem stuck_of_noMatch_segmentSelector (h : (segmentSelector g tokens).outcome = .noMatch stuck) :
    stuck = tokens.dropWhile Token.isInsignificant := by
  have hskip : (skip tokens).outcome = .matched () (tokens.dropWhile Token.isInsignificant) :=
    matches_skip_iff.2 rfl
  rw [segmentSelector, outcome_bind, hskip] at h
  simp only [selector, firstOf, outcome_orElse] at h
  split at h <;> try split at h
  all_goals cases h
  rfl

section Segments

variable (hg : g.Sealed) (hstops : StopsAt .comma (segmentSelector g) (segmentSelector g))
include hg

theorem stuck_of_noMatch_segment (hsegment : ∀ t ∈ segment, t.isComma = false)
    (h : (wholeList g segment).outcome = .noMatch stuck) :
    stuck = segment.dropWhile Token.isInsignificant := by
  apply stuck_of_noMatch_segmentSelector (g := g)
  rw [outcome_wholeList_segment hg hsegment, Reading.map] at h
  cases hs : (segmentSelector g segment).outcome with
  | matched s rest => simp [hs] at h
  | noMatch stuck' => simpa [hs] using h
  | tooDeep => simp [hs] at h

include hstops

/-- A list gets stuck in the segment before a comma, or as the list behind the comma does. -/
theorem noMatch_append_cases (hsegment : ∀ t ∈ segment, t.isComma = false)
    (hc : c.isComma = true)
    (h : (wholeList g (segment ++ c :: more)).outcome = .noMatch stuck) :
    (∃ stuck', (segmentSelector g segment).outcome = .noMatch stuck' ∧ stuck ≠ []) ∨
      ∃ s rest, (segmentSelector g segment).outcome = .matched s rest ∧
        rest.all Token.isInsignificant = true ∧ (wholeList g more).outcome = .noMatch stuck := by
  rw [outcome_wholeList_append hg hstops hsegment hc] at h
  cases hs : (segmentSelector g segment).outcome with
  | matched s rest =>
      right
      simp only [hs] at h
      split at h
      · next hblank =>
          refine ⟨s, rest, rfl, hblank, ?_⟩
          rw [Reading.map] at h
          cases hmore : (wholeList g more).outcome with
          | matched list left => simp [hmore] at h
          | noMatch stuck' => simpa [hmore] using h
          | tooDeep => simp [hmore] at h
      · cases h
  | noMatch stuck' =>
      left
      simp only [hs, Outcome.noMatch.injEq] at h
      exact ⟨stuck', rfl, by simp [← h]⟩
  | tooDeep => simp [hs] at h

/-- A list gets stuck at the end of the tokens only where a selector may begin. -/
theorem awaitsSelector_of_noMatch_nil (h : (wholeList g tokens).outcome = .noMatch []) :
    Token.AwaitsSelector tokens := by
  induction tokens using Token.segments_induction with
  | last segment hsegment =>
      rw [Token.awaitsSelector_segment_iff hsegment]
      exact (stuck_of_noMatch_segment hg hsegment h).symm
  | append segment c more hsegment hc ih =>
      rw [Token.awaitsSelector_append_iff hsegment hc]
      rcases noMatch_append_cases hg hstops hsegment hc h with ⟨_, -, hne⟩ | ⟨_, _, -, -, hmore⟩
      · exact absurd rfl hne
      · exact ih hmore

section Comma

variable (hc : c.isComma = true)
include hc

omit hg in
theorem spares_wholeList_append (hs : (segmentSelector g segment).outcome = .noMatch stuck) :
    (wholeList g (segment ++ c :: more)).Spares more := by
  obtain ⟨span, rfl⟩ := Token.isComma_iff.1 hc
  have hreading := hstops segment span more
  rw [wholeList_eq, bind_eq_of_noMatch (hreading.noMatch hs)]
  exact hreading.spares

/-- Behind a selector and a comma, the further tokens are looked at as a list of their own. -/
theorem unread_eq_zero_of_wholeList_append {s : Selector}
    (hs : (segmentSelector g segment).outcome = .matched s rest)
    (hblank : rest.all Token.isInsignificant = true) (hmore : 0 < more.length)
    (h : (wholeList g (segment ++ c :: more)).unread = some 0) :
    (wholeList g more).unread = some 0 := by
  have hblank := List.all_eq_true.1 hblank
  have htail : (iterate (nextItem (selector g)) (rest ++ c :: more)).unread =
      Reading.least (some more.length) (wholeList g more).unread := by
    rw [tail_of_comma hg hblank hc, optional_comma_eq hblank hc, Reading.after]
  obtain ⟨span, rfl⟩ := Token.isComma_iff.1 hc
  have hreading := hstops segment span more
  rw [wholeList_eq, bind_eq_of_matched (hreading.matched hs)] at h
  change Reading.least _ (iterate (nextItem (selector g)) (rest ++ _ :: more)).unread = _ at h
  rw [htail, Reading.least_eq_zero_iff, Reading.least_eq_zero_iff] at h
  rcases h with hfront | hcomma | hbehind
  · exact absurd (hreading.spares 0 hfront) (by omega)
  · exact absurd (Option.some.inj hcomma) (by omega)
  · exact hbehind

end Comma

/-- Where a selector may begin, a list that looks at the end has got stuck there. -/
theorem stuck_eq_nil_of_awaitsSelector {e : Token}
    (h : (wholeList g tokens).outcome = .noMatch stuck)
    (hunread : (wholeList g (tokens ++ [e])).unread = some 0)
    (hawaits : Token.AwaitsSelector tokens) : stuck = [] := by
  induction tokens using Token.segments_induction with
  | last segment hsegment =>
      rw [Token.awaitsSelector_segment_iff hsegment] at hawaits
      rw [stuck_of_noMatch_segment hg hsegment h, hawaits]
  | append segment c more hsegment hc ih =>
      rw [Token.awaitsSelector_append_iff hsegment hc] at hawaits
      rw [List.append_assoc, List.cons_append] at hunread
      have hmore : 0 < (more ++ [e]).length := by simp
      rcases noMatch_append_cases hg hstops hsegment hc h with
        ⟨_, hs, -⟩ | ⟨s, rest, hs, hblank, hlist⟩
      · have hle := spares_wholeList_append hstops hc hs 0 hunread
        omega
      · apply ih hlist ?_ hawaits
        exact unread_eq_zero_of_wholeList_append hg hstops hc hs hblank hmore hunread

end Segments

end Grammar

namespace Token

variable {whole : List Token}

theorem describe_of_isEof (h : t.isEof = true) : t.describe = "end of input" := by
  obtain ⟨span, rfl⟩ := isEof_iff.1 h
  rfl

theorem describe_ne_of_isEof (h : t.isEof = false) : t.describe ≠ "end of input" := by
  have hquoted (text : String) : "\"" ++ text ++ "\"" ≠ "end of input" := by
    intro heq
    have hhead := congrArg (fun s => s.toList.head?) heq
    simp at hhead
  cases t with
  | function name arguments span => exact hquoted _
  | atom a span =>
      cases a with
      | eof => cases h
      | whitespace =>
          show "whitespace" ≠ "end of input"
          decide
      | _ => exact hquoted _

theorem culprit_nil (unread : Option Nat) : culprit whole [] unread = endOf whole := by
  cases unread <;> rfl

theorem culprit_mem (h : stuck ≠ []) (hsuffix : stuck <:+ whole) (unread : Option Nat) :
    culprit whole stuck unread ∈ whole := by
  have hhead {ts : List Token} (hts : ts ≠ []) (hle : ts <:+ whole) :
      headOrEnd whole ts ∈ whole := by
    obtain ⟨u, us, rfl⟩ := List.exists_cons_of_ne_nil hts
    exact hle.subset List.mem_cons_self
  have hle := hsuffix.length_le
  cases unread with
  | none => exact hhead h hsuffix
  | some n =>
      simp only [culprit]
      split
      · next hn =>
          refine hhead ?_ (List.drop_suffix _ _)
          rw [ne_eq, List.drop_eq_nil_iff]
          omega
      · exact hhead h hsuffix

theorem culprit_last (h : stuck ≠ []) : culprit (whole ++ [t]) stuck (some 0) = t := by
  have hpos : 0 < stuck.length := List.length_pos_of_ne_nil h
  have hculprit : culprit (whole ++ [t] ++ []) stuck (some 0) = t := culprit_of_looked hpos
  rwa [List.append_nil] at hculprit

theorem culprit_singleton (unread : Option Nat) : culprit (whole ++ [t]) [t] unread = t := by
  match unread with
  | none => rfl
  | some 0 => exact culprit_last (by simp)
  | some (n + 1) => simp [culprit, headOrEnd]

end Token

theorem SelectorError.ofToken_ne {u : Token} (ht : t.isEof = false) (hu : u.isEof = true) :
    SelectorError.ofToken t ≠ .ofToken u := by
  intro heq
  apply Token.describe_ne_of_isEof ht
  rw [← Token.describe_of_isEof hu]
  exact (SelectorError.unexpected.inj heq).1

/-- The first token is blamed where the tokens end, and the second where the end of the text
follows them. -/
def Token.BlamedApart (tokens : List Token) (blamed blamed' : Token) : Prop :=
  blamed ∈ tokens ∧ blamed' = blamed ∨
    AwaitsSelector tokens ∧ blamed = endOf tokens ∧ blamed' = endOf tokens ∨
    ¬ AwaitsSelector tokens ∧ tokens.getLast? = some blamed ∧ blamed' = endOf tokens

/-- The end is blamed if it was looked at. Without it, reading got stuck before it if a selector
may begin there, and else the last token was the furthest one. -/
theorem Reading.Stopped.blamedApart {α : Type} {reading stopped : Reading α}
    (h : reading.Stopped tokens (.endOf tokens) [] stopped) (hsuffix : stuck <:+ tokens)
    (hnil : stuck = [] → Token.AwaitsSelector tokens)
    (hawaits : stopped.unread = some 0 → Token.AwaitsSelector tokens → stuck = []) :
    Token.BlamedApart tokens (Token.culprit tokens stuck reading.unread)
      (Token.culprit (tokens ++ [.endOf tokens]) (stuck ++ [.endOf tokens]) stopped.unread) := by
  by_cases hstuck : stuck = []
  · subst hstuck
    exact .inr (.inl ⟨hnil rfl, Token.culprit_nil _, Token.culprit_singleton _⟩)
  · rcases h.unread with hunread | ⟨hunread, hlast⟩
    · rw [hunread]
      exact .inl ⟨Token.culprit_mem hstuck hsuffix _, Token.culprit_append hstuck hsuffix _ _⟩
    · refine .inr (.inr ⟨fun hbegin => hstuck (hawaits hunread hbegin), ?_, ?_⟩)
      · have hne : tokens ≠ [] := by
          rintro rfl
          exact hstuck (List.suffix_nil.1 hsuffix)
        obtain ⟨front, t, rfl⟩ : ∃ front t, tokens = front ++ [t] :=
          ⟨_, _, (List.dropLast_append_getLast hne).symm⟩
        rw [hlast.resolve_left hne, Token.culprit_last hstuck, List.getLast?_concat]
      · rw [hunread]
        exact Token.culprit_last (by simp)

theorem parseTokens_of_leftover {list : List Selector}
    (h : ((Grammar.ofLevels options.dialect options.maxDepth).wholeList tokens).outcome =
      .matched list rest) (hend : Token.atEnd rest = false) :
    parseTokens options tokens = .error (.ofToken
      (Token.headOrEnd tokens (rest.dropWhile Token.isInsignificant))) := by
  simp [parseTokens, readTokens, h, hend]

theorem parse_error_blamedApart {found : String} {first last : Nat}
    (h : parseTokens options tokens = .error (.unexpected found first last)) :
    ∃ blamed blamed', Token.BlamedApart tokens blamed blamed' ∧
      parseTokens options tokens = .error (.ofToken blamed) ∧
      parseTokens options (tokens ++ [.endOf tokens]) = .error (.ofToken blamed') := by
  have hstopped : Reading.Stopped tokens (.endOf tokens) []
      ((Grammar.ofLevels options.dialect options.maxDepth).wholeList tokens)
      ((Grammar.ofLevels options.dialect options.maxDepth).wholeList
        (tokens ++ [.endOf tokens])) := Grammar.stopsAt_wholeList tokens _ []
  cases houtcome :
      ((Grammar.ofLevels options.dialect options.maxDepth).wholeList tokens).outcome with
  | matched list rest =>
      cases hleft : Token.atEnd rest with
      | true =>
          rw [parseTokens_eq_ok_iff_matches.2 ⟨rest, houtcome, hleft⟩] at h
          cases h
      | false =>
          have hleft' : Token.atEnd (rest ++ [.endOf tokens]) = false := by
            rw [← hleft]
            exact Token.atEnd_append_eof rest [] _
          obtain ⟨front, t, back, htokens, hdrop, -⟩ := exists_complete_front houtcome hleft
          refine ⟨t, t, .inl ⟨by simp [htokens], rfl⟩, ?_, ?_⟩
          · rw [parseTokens_of_leftover houtcome hleft, hdrop]
            rfl
          · rw [parseTokens_of_leftover (hstopped.matched houtcome) hleft',
              Token.dropWhile_append_solid rfl, hdrop]
            rfl
  | noMatch stuck =>
      refine ⟨_, _, ?_, parseTokens_of_noMatch houtcome,
        parseTokens_of_noMatch (hstopped.noMatch houtcome)⟩
      have hg := Grammar.sealed_ofLevels options.dialect options.maxDepth
      have hadvances : (Grammar.ofLevels options.dialect options.maxDepth).wholeList.Advances :=
        (Grammar.heeds_wholeList_ofLevels options.maxDepth).advances
      apply hstopped.blamedApart (hadvances.passes_of_noMatch houtcome).suffix
      · rintro rfl
        exact Grammar.awaitsSelector_of_noMatch_nil hg Grammar.stopsAt_segmentSelector houtcome
      · exact Grammar.stuck_eq_nil_of_awaitsSelector hg Grammar.stopsAt_segmentSelector houtcome
  | tooDeep =>
      simp only [parseTokens, readTokens, houtcome] at h
      cases h

/-- Tokens that run out are blamed as if the end of the text stood behind them, unless that end
is blamed and a selector has begun. Then the last token is blamed instead of the end. -/
theorem parse_running_out (heof : ∀ t ∈ tokens, t.isEof = false) {found : String}
    {first last : Nat} (h : parseTokens options tokens = .error (.unexpected found first last)) :
    (parseTokens options (tokens ++ [.endOf tokens]) = parseTokens options tokens ↔
      (parseTokens options (tokens ++ [.endOf tokens]) = .error (.ofToken (.endOf tokens)) →
        Token.AwaitsSelector tokens)) ∧
    (parseTokens options (tokens ++ [.endOf tokens]) = .error (.ofToken (.endOf tokens)) →
      ¬ Token.AwaitsSelector tokens →
        ∃ t, tokens.getLast? = some t ∧ parseTokens options tokens = .error (.ofToken t)) := by
  obtain ⟨blamed, blamed', hapart, hblamed, hblamed'⟩ := parse_error_blamedApart h
  have hne {t : Token} (ht : t ∈ tokens) :
      SelectorError.ofToken t ≠ .ofToken (.endOf tokens) :=
    SelectorError.ofToken_ne (heof t ht) rfl
  rw [hblamed, hblamed', Except.error.injEq, Except.error.injEq]
  rcases hapart with ⟨hmem, rfl⟩ | ⟨hawaits, rfl, rfl⟩ | ⟨hbegun, hlast, rfl⟩
  · have hsame := hne hmem
    exact ⟨iff_of_true rfl fun hend => absurd hend hsame, fun hend => absurd hend hsame⟩
  · exact ⟨iff_of_true rfl fun _ => hawaits, fun _ hbegun => absurd hawaits hbegun⟩
  · have hdiffer := hne (List.mem_of_getLast? hlast)
    refine ⟨iff_of_false hdiffer.symm fun hawaits => hbegun (hawaits rfl), fun _ _ => ?_⟩
    exact ⟨blamed, hlast, rfl⟩

theorem parse_running_out_colon :
    parseTokens {} [.atom .colon ⟨0, 1⟩] = .error (.unexpected "\":\"" 1 1) ∧
      parseTokens {} [.atom .colon ⟨0, 1⟩, .atom .eof ⟨1, 1⟩] =
        .error (.unexpected "end of input" 1 1) ∧
      ∃ t, List.getLast? [.atom .colon ⟨0, 1⟩] = some t ∧
        parseTokens {} [.atom .colon ⟨0, 1⟩] = .error (.ofToken t) := by
  have h : parseTokens {} [.atom .colon ⟨0, 1⟩] = .error (.unexpected "\":\"" 1 1) := by
    with_unfolding_all rfl
  have hend : parseTokens {} [.atom .colon ⟨0, 1⟩, .atom .eof ⟨1, 1⟩] =
      .error (.unexpected "end of input" 1 1) := by with_unfolding_all rfl
  have hbegun : ¬ Token.AwaitsSelector [.atom .colon ⟨0, 1⟩] := by
    rw [Token.awaitsSelector_segment_iff (by simp [Token.isComma])]
    simp [Token.isInsignificant]
  exact ⟨h, hend, (parse_running_out (by simp [Token.isEof]) h).2 hend hbegun⟩

end CssSelectors
