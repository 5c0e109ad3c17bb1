import CssSelectors.Proofs.Acceptance
import CssSelectors.Proofs.Congruence

/-!
# Levels of arguments

A lower limit on the levels of arguments can stop the reading, but never changes what is
read: two grammars that differ in the limit alone go the same way until the lower one
meets a function that is too deep for it. It meets none in tokens that are not nested
more deeply than the limit.
-/

namespace CssSelectors

namespace Grammar

open Production

variable {α β : Type} {g g' : Grammar} {tokens rest : List Token}

def TooDeep (g : Grammar) (function : Token) : Prop :=
  ∀ rest, (g.arguments function).Overflows rest

/-- One production reads the tokens as the other does, except that it may stop at a function
that is too deep for the grammar. -/
structure TracksOn (g : Grammar) (p p' : Production α) (tokens : List Token) : Prop where
  same : p.Overflows tokens ∨ p tokens = p' tokens
  culprit : p.Overflows tokens → ∃ t ∈ tokens, g.TooDeep t
  within : ∀ a rest, p.Matches tokens a rest → rest ⊆ tokens

def Tracks (g : Grammar) (p p' : Production α) : Prop :=
  ∀ tokens, g.TracksOn p p' tokens

theorem TracksOn.of_outcome {p p' : Production α} {outcome : Outcome α} (heq : p tokens = p' tokens)
    (houtcome : (p tokens).outcome = outcome) (hdeep : outcome ≠ .tooDeep)
    (hwithin : ∀ a rest, outcome = .matched a rest → rest ⊆ tokens) : g.TracksOn p p' tokens where
  same := .inr heq
  culprit := fun h => absurd (houtcome.symm.trans h) hdeep
  within := fun a rest h => hwithin a rest (houtcome.symm.trans h)

/-- Two sequences read alike if their first productions do, and what follows them does behind
what they read. -/
theorem same_bind {p p' : Production α} {f f' : α → Production β}
    (hp : p.Overflows tokens ∨ p tokens = p' tokens)
    (hf : ∀ a rest, p.Matches tokens a rest → (f a).Overflows rest ∨ f a rest = f' a rest) :
    (p >>= f).Overflows tokens ∨ (p >>= f) tokens = (p' >>= f') tokens := by
  rcases hp with hover | heq
  · exact .inl (overflows_bind_iff.2 (.inl hover))
  · cases houtcome : (p tokens).outcome with
    | matched a rest =>
        rcases hf a rest houtcome with hover | hsame
        · exact .inl (overflows_bind_iff.2 (.inr ⟨a, rest, houtcome, hover⟩))
        · right
          rw [bind_eq_of_matched houtcome, bind_eq_of_matched (heq ▸ houtcome), hsame, heq]
    | noMatch stuck =>
        right
        rw [bind_eq_of_noMatch houtcome, bind_eq_of_noMatch (heq ▸ houtcome), heq]
    | tooDeep => exact .inl (overflows_bind_iff.2 (.inl houtcome))

namespace Tracks

theorem of_not_overflows {p : Production α} (hdeep : ∀ tokens, ¬ p.Overflows tokens)
    (hwithin : ∀ tokens a rest, p.Matches tokens a rest → rest ⊆ tokens) : g.Tracks p p :=
  fun tokens => ⟨.inr rfl, fun h => absurd h (hdeep tokens), hwithin tokens⟩

theorem pure (a : α) : g.Tracks (pure a) (pure a) := by
  apply of_not_overflows (by simp)
  intro tokens b rest h
  rw [(matches_pure_iff.1 h).2]
  exact List.Subset.refl rest

theorem fail : g.Tracks (fail : Production α) fail :=
  of_not_overflows (by simp) fun tokens a rest h => absurd h not_matches_fail

theorem token (accept : Token → Bool) : g.Tracks (token accept) (token accept) := by
  apply of_not_overflows (by simp)
  intro tokens t rest h
  obtain ⟨rfl, -⟩ := matches_token_iff.1 h
  exact List.subset_cons_self t rest

theorem insignificant : g.Tracks insignificant insignificant := by
  apply of_not_overflows (by simp)
  intro tokens blank rest h
  rw [(matches_insignificant_iff.1 h).2]
  exact (List.dropWhile_suffix _).subset

theorem bind {p p' : Production α} {f f' : α → Production β} (hp : g.Tracks p p')
    (hf : ∀ a, g.Tracks (f a) (f' a)) : g.Tracks (p >>= f) (p' >>= f') := by
  intro tokens
  have hp := hp tokens
  constructor
  · exact same_bind hp.same fun a rest _ => (hf a rest).same
  · intro h
    rcases overflows_bind_iff.1 h with hover | ⟨a, middle, ha, hover⟩
    · exact hp.culprit hover
    · obtain ⟨t, ht, hdeep⟩ := (hf a middle).culprit hover
      exact ⟨t, hp.within a middle ha ht, hdeep⟩
  · intro b rest h
    obtain ⟨a, middle, ha, hb⟩ := matches_bind_iff.1 h
    exact List.Subset.trans ((hf a middle).within b rest hb) (hp.within a middle ha)

theorem orElse {p p' q q' : Production α} (hp : g.Tracks p p') (hq : g.Tracks q q') :
    g.Tracks (orElse p q) (orElse p' q') := by
  intro tokens
  have hp := hp tokens
  have hq := hq tokens
  constructor
  · rcases hp.same with hover | heq
    · exact .inl (overflows_orElse_iff.2 (.inl hover))
    · by_cases hrefuses : p.Refuses tokens
      · rcases hq.same with hover | hsame
        · exact .inl (overflows_orElse_iff.2 (.inr ⟨hrefuses, hover⟩))
        · right
          obtain ⟨stuck, houtcome⟩ := hrefuses
          rw [orElse_eq_of_noMatch houtcome, orElse_eq_of_noMatch (heq ▸ houtcome), hsame, heq]
      · right
        have hrefuses' : ¬ p'.Refuses tokens := by
          unfold Refuses at hrefuses ⊢
          rwa [← heq]
        rw [orElse_eq_of_not_refuses hrefuses, orElse_eq_of_not_refuses hrefuses', heq]
  · intro h
    rcases overflows_orElse_iff.1 h with hover | ⟨-, hover⟩
    · exact hp.culprit hover
    · exact hq.culprit hover
  · intro a rest h
    rcases matches_orElse_iff.1 h with ha | ⟨-, ha⟩
    · exact hp.within a rest ha
    · exact hq.within a rest ha

theorem iterate {step step' : Production (Option α)} (h : g.Tracks step step') :
    g.Tracks (iterate step) (iterate step') := by
  intro tokens
  induction hn : tokens.length using Nat.strongRecOn generalizing tokens with
  | ind n ih =>
      have hstep := h tokens
      cases houtcome : (step tokens).outcome with
      | tooDeep =>
          have hover : (Production.iterate step).Overflows tokens := by
            rw [Overflows, iterate_eq_of_tooDeep houtcome]
          refine ⟨.inl hover, fun _ => hstep.culprit houtcome, fun as rest hmatches => ?_⟩
          exact absurd hover hmatches.not_overflows
      | noMatch stuck =>
          have heq := hstep.same.resolve_left (by simp [Overflows, houtcome])
          have hiterate := iterate_eq_of_noMatch houtcome
          refine .of_outcome ?_ (congrArg Reading.outcome hiterate) (by simp) (by simp)
          rw [hiterate, iterate_eq_of_noMatch (heq ▸ houtcome), heq]
      | matched item rest =>
          have heq := hstep.same.resolve_left (by simp [Overflows, houtcome])
          have hwithin := hstep.within item rest houtcome
          cases item with
          | none =>
              have hiterate := iterate_eq_of_none houtcome
              refine .of_outcome ?_ (congrArg Reading.outcome hiterate) (by simp) ?_
              · rw [hiterate, iterate_eq_of_none (heq ▸ houtcome), heq]
              · rintro _ _ ⟨rfl, rfl⟩
                exact hwithin
          | some a =>
              by_cases hlt : rest.length < tokens.length
              · have hrest := ih rest.length (hn ▸ hlt) rest rfl
                have hover := overflows_iterate_iff_of_lt houtcome hlt
                refine ⟨?_, fun h => ?_, fun as rest' hmatches => ?_⟩
                · rcases hrest.same with h | hsame
                  · exact .inl (hover.2 h)
                  · right
                    rw [iterate_eq_of_lt houtcome hlt, iterate_eq_of_lt (heq ▸ houtcome) hlt,
                      hsame, heq]
                · obtain ⟨t, ht, hdeep⟩ := hrest.culprit (hover.1 h)
                  exact ⟨t, hwithin ht, hdeep⟩
                · obtain ⟨bs, -, hbs⟩ := (matches_iterate_iff_of_lt houtcome hlt).1 hmatches
                  exact List.Subset.trans (hrest.within bs rest' hbs) hwithin
              · have hiterate := iterate_eq_of_not_lt houtcome hlt
                refine .of_outcome ?_ (congrArg Reading.outcome hiterate) (by simp) ?_
                · rw [hiterate, iterate_eq_of_not_lt (heq ▸ houtcome) hlt, heq]
                · rintro _ _ ⟨rfl, rfl⟩
                  exact hwithin

theorem congruence (g : Grammar) : Congruence fun _ => g.Tracks where
  pure := pure
  fail := fail
  token := fun _ => token _
  insignificant := insignificant
  bind := bind
  orElse := orElse
  iterate := iterate

end Tracks

/-- Two grammars of one dialect that yield the same arguments wherever the first yields any. -/
structure Cuts (g g' : Grammar) : Prop where
  dialect : g.dialect = g'.dialect
  arguments : ∀ function rest, (g.arguments function).Overflows rest ∨
    g.arguments function rest = g'.arguments function rest

namespace Cuts

theorem functionCall (h : Cuts g g') (hg : g.Sealed) :
    g.Tracks (functionCall g) (functionCall g') := by
  intro tokens
  constructor
  · apply same_bind (.inr rfl)
    intro function rest _
    exact same_bind (h.arguments function rest) fun _ _ _ => .inr rfl
  · intro hover
    simp only [Grammar.functionCall, overflows_bind_iff, not_overflows_token, false_or,
      matches_token_iff, not_overflows_pure, and_false, exists_false, or_false] at hover
    obtain ⟨function, rest, ⟨rfl, -⟩, hover⟩ := hover
    refine ⟨function, List.mem_cons_self, ?_⟩
    rcases hg function with ⟨arguments, hyields⟩ | hdeep
    · exact absurd hover (hyields rest).not_overflows
    · exact hdeep
  · intro selector rest hmatches
    obtain ⟨function, arguments, -, -, -, rfl⟩ := (matches_functionCall_iff hg).1 hmatches
    exact List.subset_cons_self function rest

theorem wholeList (h : Cuts g g') (hg : g.Sealed) : g.Tracks (wholeList g) (wholeList g') := by
  have hcomma : g.Tracks comma comma :=
    (Tracks.congruence g).skip.bind fun _ => .token _
  have hclass := (Tracks.congruence g).pseudoClass (.token _) (h.functionCall hg)
  have helement := (Tracks.congruence g).pseudoElement hclass (.token _)
  exact (Tracks.congruence g).wholeList hclass h.dialect helement hcomma

theorem readNested (h : Cuts g g') (hg : g.Sealed) (name : String) (ts rest : List Token) :
    (readNested g name ts).Overflows rest ∨
      Grammar.readNested g name ts rest = Grammar.readNested g' name ts rest := by
  by_cases hvalue : ∃ value leftover, anPlusB.Matches ts value leftover
  · right
    obtain ⟨value, leftover, hmatches⟩ := hvalue
    unfold Matches at hmatches
    simp only [Grammar.readNested, hmatches]
  · rcases (h.wholeList hg ts).same with hover | heq
    · left
      rw [Overflows, outcome_readNested (by simpa using hvalue), hover]
    · right
      simp only [Grammar.readNested, heq]

end Cuts

/-! ## More levels -/

variable {dialect : Dialect} {levels levels' : Nat}

theorem arguments_of_nil {function : Token} (h : argumentTokens function = []) :
    (ofLevels dialect levels).arguments function = (ofLevels dialect levels').arguments function :=
  (readArguments_of_nil h).trans (readArguments_of_nil h).symm

theorem cuts_ofLevels (h : levels ≤ levels') :
    Cuts (ofLevels dialect levels) (ofLevels dialect levels') := by
  induction levels generalizing levels' with
  | zero =>
      refine ⟨rfl, fun function rest => ?_⟩
      by_cases hnil : argumentTokens function = []
      · exact .inr (congrFun (arguments_of_nil hnil) rest)
      · left
        rw [show (ofLevels dialect 0).arguments function = _ from readArguments_zero hnil]
        rfl
  | succ levels ih =>
      obtain ⟨more, rfl⟩ : ∃ more, levels' = more + 1 := ⟨levels' - 1, by omega⟩
      have hcuts : Cuts (ofLevels dialect levels) (ofLevels dialect more) := ih (by omega)
      refine ⟨rfl, fun function rest => ?_⟩
      by_cases hnil : argumentTokens function = []
      · exact .inr (congrFun (arguments_of_nil hnil) rest)
      · have harguments (n : Nat) : (ofLevels dialect (n + 1)).arguments function = _ :=
          readArguments_succ hnil
        rw [harguments, harguments]
        exact hcuts.readNested (sealed_ofLevels dialect levels) _ _ rest

theorem yields_of_le (h : levels ≤ levels') {function : Token} {arguments : Arguments}
    (hyields : (ofLevels dialect levels).Yields function arguments) :
    (ofLevels dialect levels').Yields function arguments := by
  intro rest
  rcases (cuts_ofLevels h).arguments function rest with hover | heq
  · exact absurd hover (hyields rest).not_overflows
  · have hmatches := hyields rest
    unfold Matches at hmatches ⊢
    rwa [← heq]

end Grammar

open Production in
theorem parseTokens_eq_of_le {dialect : Dialect} {levels levels' : Nat} {tokens : List Token}
    (h : levels ≤ levels') :
    parseTokens ⟨dialect, levels⟩ tokens = .error (.nestingTooDeep levels) ∨
      parseTokens ⟨dialect, levels⟩ tokens = parseTokens ⟨dialect, levels'⟩ tokens := by
  have hcuts : Grammar.Cuts (.ofLevels dialect levels) (.ofLevels dialect levels') :=
    Grammar.cuts_ofLevels h
  have htracks := hcuts.wholeList (Grammar.sealed_ofLevels dialect levels) tokens
  by_cases hover : (Grammar.ofLevels dialect levels).wholeList.Overflows tokens
  · exact .inl (parseTokens_eq_tooDeep_iff.2 ⟨hover, rfl⟩)
  · right
    have heq := htracks.same.resolve_left hover
    unfold Overflows at hover
    simp only [parseTokens, readTokens, heq] at hover ⊢
    split <;> first | rfl | contradiction

/-! ## Nesting -/

namespace Token

mutual

/-- How many levels of arguments a token holds. Parentheses with nothing but blank text between
them hold none. -/
def nesting : Token → Nat
  | .atom _ _ => 0
  | .function _ arguments _ =>
    if arguments.all isInsignificant then 0 else 1 + nestingOfList arguments

def nestingOfList : List Token → Nat
  | [] => 0
  | t :: ts => max t.nesting (nestingOfList ts)

end

theorem nesting_le_nestingOfList {t : Token} {tokens : List Token} (h : t ∈ tokens) :
    t.nesting ≤ nestingOfList tokens := by
  induction tokens with
  | nil => cases h
  | cons u us ih =>
      rw [nestingOfList]
      rcases List.mem_cons.1 h with rfl | h
      · exact Nat.le_max_left _ _
      · have := ih h
        omega

theorem trim_eq_nil {tokens : List Token} (h : ∀ t ∈ tokens, t.isInsignificant = true) :
    trim tokens = [] := by
  have hdrop : tokens.dropWhile isInsignificant = [] := by
    simpa using dropWhile_append_of_solid h solid_nil
  rw [trim, hdrop]
  rfl

theorem trim_subset (tokens : List Token) : trim tokens ⊆ tokens := by
  intro t ht
  have ht := (List.dropWhile_suffix _).subset (List.mem_reverse.1 ht)
  exact (List.dropWhile_suffix _).subset (List.mem_reverse.1 ht)

end Token

namespace Grammar

open Production

theorem nesting_lt_of_mem_argumentTokens {function t : Token}
    (h : t ∈ argumentTokens function) : t.nesting < function.nesting := by
  cases function with
  | atom a span => cases h
  | function name arguments span =>
      have hmem : t ∈ Token.trim arguments := h
      have hsome : arguments.all Token.isInsignificant = false := by
        rw [Bool.eq_false_iff]
        intro hall
        rw [Token.trim_eq_nil (List.all_eq_true.1 hall)] at hmem
        cases hmem
      have hle := Token.nesting_le_nestingOfList (Token.trim_subset arguments hmem)
      rw [Token.nesting, hsome]
      simp only [Bool.false_eq_true, if_false]
      omega

theorem exists_yields_of_nesting_le {dialect : Dialect} {levels : Nat} {function : Token}
    (h : function.nesting ≤ levels) :
    ∃ arguments, (ofLevels dialect levels).Yields function arguments := by
  induction levels generalizing function with
  | zero =>
      refine ⟨.empty, (yields_empty_iff ?_).2 rfl⟩
      rw [List.eq_nil_iff_forall_not_mem]
      intro t ht
      have hlt := nesting_lt_of_mem_argumentTokens ht
      omega
  | succ levels ih =>
      by_cases hnil : argumentTokens function = []
      · exact ⟨.empty, (yields_empty_iff hnil).2 rfl⟩
      · rcases readNested_cases (ofLevels dialect levels) "" (argumentTokens function) with
          ⟨arguments, hsays, -⟩ | ⟨⟨-, hover⟩, -⟩
        · exact ⟨arguments, (yields_succ_iff hnil).2 hsays⟩
        · -- the list overflows at a function among the arguments, which has a level less
          have hg := sealed_ofLevels dialect levels
          have hcuts : Cuts (ofLevels dialect levels) (ofLevels dialect levels) :=
            cuts_ofLevels (Nat.le_refl levels)
          have htracks := hcuts.wholeList hg (argumentTokens function)
          obtain ⟨t, ht, hdeep⟩ := htracks.culprit hover
          have hlt := nesting_lt_of_mem_argumentTokens ht
          have hle : t.nesting ≤ levels := by omega
          obtain ⟨arguments, hyields⟩ := ih hle
          exact absurd (hdeep []) (hyields []).not_overflows

theorem yields_of_nesting_le {dialect : Dialect} {levels levels' : Nat} {function : Token}
    {arguments : Arguments} (h : function.nesting ≤ levels')
    (hyields : (ofLevels dialect levels).Yields function arguments) :
    (ofLevels dialect levels').Yields function arguments := by
  rcases Nat.le_total levels levels' with hle | hle
  · exact yields_of_le hle hyields
  · obtain ⟨arguments', hyields'⟩ :
        ∃ arguments', (ofLevels dialect levels').Yields function arguments' :=
      exists_yields_of_nesting_le h
    have hmore := yields_of_le hle hyields'
    rw [((hyields []).unique (hmore [])).1]
    exact hyields'

end Grammar

end CssSelectors
