import CssSelectors.Proofs.Rendering
import CssSelectors.Proofs.Stopping
import CssSelectors.Proofs.Telling

/-!
# Functions that a reading comes to

Before a function, nothing that follows the function decides how far a reading gets. So a
function that is read in some tokens is read in whatever begins with them, and what its
arguments keep is kept there, too.
-/

namespace CssSelectors

variable {α β : Type}

/-! ## Readings up to a function -/

/-- Both readings have kept the names, or both have the same result and nothing of it depends on
what they differ in. -/
inductive Reading.Alike (names : List String) (behind behind' : List Token)
    (reading reading' : Reading α) : Prop
  | kept (h : names ⊆ reading.keptRaw) (h' : names ⊆ reading'.keptRaw)
  | matched {a : α} {rest : List Token} (h : reading.outcome = .matched a (rest ++ behind))
      (h' : reading'.outcome = .matched a (rest ++ behind'))
  | noMatch {stuck stuck' : List Token} (h : reading.outcome = .noMatch stuck)
      (h' : reading'.outcome = .noMatch stuck')
  | tooDeep (h : reading.outcome = .tooDeep) (h' : reading'.outcome = .tooDeep)

namespace Reading.Alike

variable {names : List String} {behind behind' : List Token}

theorem map {reading reading' : Reading α} (h : Alike names behind behind' reading reading')
    (f : α → β) : Alike names behind behind' (reading.map f) (reading'.map f) := by
  cases h with
  | kept h h' => exact .kept h h'
  | matched h h' => exact .matched (by rw [Reading.map, h]) (by rw [Reading.map, h'])
  | noMatch h h' => exact .noMatch (by rw [Reading.map, h]) (by rw [Reading.map, h'])
  | tooDeep h h' => exact .tooDeep (by rw [Reading.map, h]) (by rw [Reading.map, h'])

theorem after {reading reading' : Reading α} (h : Alike names behind behind' reading reading')
    (earlier earlier' : Reading β) :
    Alike names behind behind' (reading.after earlier) (reading'.after earlier') := by
  cases h with
  | kept h h' =>
      exact .kept (List.subset_append_of_subset_right _ h)
        (List.subset_append_of_subset_right _ h')
  | matched h h' => exact .matched h h'
  | noMatch h h' => exact .noMatch h h'
  | tooDeep h h' => exact .tooDeep h h'

end Reading.Alike

namespace Production

theorem keptRaw_subset_bind (p : Production α) (f : α → Production β) (tokens : List Token) :
    (p tokens).keptRaw ⊆ ((p >>= f) tokens).keptRaw := by
  cases houtcome : (p tokens).outcome with
  | matched a rest =>
      rw [bind_eq_of_matched houtcome]
      exact List.subset_append_left _ _
  | noMatch stuck => rw [bind_eq_of_noMatch houtcome]; exact List.Subset.refl _
  | tooDeep => rw [bind_eq_of_tooDeep houtcome]; exact List.Subset.refl _

theorem keptRaw_subset_orElse (p q : Production α) (tokens : List Token) :
    (p tokens).keptRaw ⊆ (orElse p q tokens).keptRaw := by
  by_cases hrefuses : p.Refuses tokens
  · obtain ⟨stuck, houtcome⟩ := hrefuses
    rw [orElse_eq_of_noMatch houtcome]
    exact List.subset_append_left _ _
  · rw [orElse_eq_of_not_refuses hrefuses]
    exact List.Subset.refl _

theorem keptRaw_subset_iterate (step : Production (Option α)) (tokens : List Token) :
    (step tokens).keptRaw ⊆ (iterate step tokens).keptRaw := by
  rcases houtcome : (step tokens).outcome with ⟨_ | a, rest⟩ | stuck | _
  · rw [iterate_eq_of_none houtcome]; exact List.Subset.refl _
  · by_cases hlt : rest.length < tokens.length
    · rw [iterate_eq_of_lt houtcome hlt]
      exact List.subset_append_left _ _
    · rw [iterate_eq_of_not_lt houtcome hlt]; exact List.Subset.refl _
  · rw [iterate_eq_of_noMatch houtcome]; exact List.Subset.refl _
  · rw [iterate_eq_of_tooDeep houtcome]; exact List.Subset.refl _

/-- Whatever stands in front, the production comes to the place where the tokens begin to differ
or reads alike. -/
def Reaches (names : List String) (behind behind' : List Token) (p : Production α) : Prop :=
  ∀ front, Reading.Alike names behind behind' (p (front ++ behind)) (p (front ++ behind'))

namespace Reaches

variable {names : List String} {span : Span} {more more' behind behind' : List Token}

theorem pure (a : α) : Reaches names behind behind' (pure a) :=
  fun _ => .matched rfl rfl

theorem fail : Reaches names behind behind' (fail : Production α) :=
  fun _ => .noMatch rfl rfl

theorem of_refuses {p q : Production α} {tokens tokens' : List Token} (h : p.Refuses tokens)
    (h' : q.Refuses tokens') : Reading.Alike names behind behind' (p tokens) (q tokens') := by
  obtain ⟨stuck, h⟩ := h
  obtain ⟨stuck', h'⟩ := h'
  exact .noMatch h h'

theorem token {accept : Token → Bool} {t : Token} (haccept : accept t = false) :
    Reaches names (t :: more) (t :: more') (token accept) := by
  intro front
  cases front with
  | nil => exact of_refuses (refuses_token_cons_iff.2 haccept) (refuses_token_cons_iff.2 haccept)
  | cons u us =>
      cases hu : accept u with
      | true => exact .matched (matches_token_iff.2 ⟨rfl, hu⟩) (matches_token_iff.2 ⟨rfl, hu⟩)
      | false => exact of_refuses (refuses_token_cons_iff.2 hu) (refuses_token_cons_iff.2 hu)

theorem insignificant {t : Token} (ht : t.isInsignificant = false) :
    Reaches names (t :: more) (t :: more') insignificant := by
  intro front
  have houtcome (behind : List Token) :
      (Production.insignificant (front ++ t :: behind)).outcome =
        .matched (front.takeWhile Token.isInsignificant)
          (front.dropWhile Token.isInsignificant ++ t :: behind) := by
    rw [Production.insignificant, Token.takeWhile_append_solid ht, Token.dropWhile_append_solid ht]
  exact .matched (houtcome more) (houtcome more')

theorem bind {p : Production α} {f : α → Production β} (hp : Reaches names behind behind' p)
    (hf : ∀ a, Reaches names behind behind' (f a)) : Reaches names behind behind' (p >>= f) := by
  intro front
  cases hp front with
  | kept h h' =>
      exact .kept (List.Subset.trans h (keptRaw_subset_bind _ _ _))
        (List.Subset.trans h' (keptRaw_subset_bind _ _ _))
  | @matched a rest h h' =>
      rw [bind_eq_of_matched h, bind_eq_of_matched h']
      exact (hf a rest).after _ _
  | noMatch h h' =>
      rw [bind_eq_of_noMatch h, bind_eq_of_noMatch h']
      exact .noMatch rfl rfl
  | tooDeep h h' =>
      rw [bind_eq_of_tooDeep h, bind_eq_of_tooDeep h']
      exact .tooDeep rfl rfl

theorem orElse {p q : Production α} (hp : Reaches names behind behind' p)
    (hq : Reaches names behind behind' q) : Reaches names behind behind' (orElse p q) := by
  intro front
  cases hp front with
  | kept h h' =>
      exact .kept (List.Subset.trans h (keptRaw_subset_orElse _ _ _))
        (List.Subset.trans h' (keptRaw_subset_orElse _ _ _))
  | matched h h' =>
      rw [orElse_eq_of_not_refuses (Matches.not_refuses h),
        orElse_eq_of_not_refuses (Matches.not_refuses h')]
      exact .matched h h'
  | noMatch h h' =>
      rw [orElse_eq_of_noMatch h, orElse_eq_of_noMatch h']
      exact (hq front).after _ _
  | tooDeep h h' => exact .tooDeep (by rw [outcome_orElse, h]) (by rw [outcome_orElse, h'])

theorem iterate {step : Production (Option α)} (h : Reaches names behind behind' step) :
    Reaches names behind behind' (iterate step) := by
  intro front
  induction hn : front.length using Nat.strongRecOn generalizing front with
  | ind n ih =>
      cases h front with
      | kept h h' =>
          exact .kept (List.Subset.trans h (keptRaw_subset_iterate _ _))
            (List.Subset.trans h' (keptRaw_subset_iterate _ _))
      | @matched item rest h h' =>
          cases item with
          | none =>
              rw [iterate_eq_of_none h, iterate_eq_of_none h']
              exact .matched rfl rfl
          | some a =>
              have hlength (behind : List Token) : (rest ++ behind).length <
                  (front ++ behind).length ↔ rest.length < front.length := by
                simp
              by_cases hlt : rest.length < front.length
              · rw [iterate_eq_of_lt h ((hlength _).2 hlt), iterate_eq_of_lt h' ((hlength _).2 hlt)]
                have hrest := ih rest.length (hn ▸ hlt) rest rfl
                exact (hrest.map _).after _ _
              · rw [iterate_eq_of_not_lt h (mt (hlength _).1 hlt),
                  iterate_eq_of_not_lt h' (mt (hlength _).1 hlt)]
                exact .matched rfl rfl
      | noMatch h h' =>
          rw [iterate_eq_of_noMatch h, iterate_eq_of_noMatch h']
          exact .noMatch rfl rfl
      | tooDeep h h' =>
          rw [iterate_eq_of_tooDeep h, iterate_eq_of_tooDeep h']
          exact .tooDeep rfl rfl

theorem congruence :
    Congruence fun _ p _ => Reaches names (.atom .colon span :: more) (.atom .colon span :: more')
      p where
  pure := pure
  fail := fail
  token := fun haccept => token (haccept span).2.2
  insignificant := insignificant rfl
  bind := bind
  orElse := orElse
  iterate := iterate

theorem colon_bind {f : Token → Production α}
    (hf : ∀ t, Reaches names (.atom .colon span :: more) (.atom .colon span :: more') (f t))
    (hcolon : Reading.Alike names (.atom .colon span :: more) (.atom .colon span :: more')
      (f (.atom .colon span) more) (f (.atom .colon span) more')) :
    Reaches names (.atom .colon span :: more) (.atom .colon span :: more')
      (Production.token Token.isColon >>= f) := by
  intro front
  have hmatches (t : Token) (rest : List Token) (ht : t.isColon = true) :
      (Production.token Token.isColon).Matches (t :: rest) t rest := matches_token_iff.2 ⟨rfl, ht⟩
  cases front with
  | nil =>
      rw [List.nil_append, List.nil_append, bind_eq_of_matched (hmatches _ more rfl),
        bind_eq_of_matched (hmatches _ more' rfl)]
      exact hcolon.after _ _
  | cons u us =>
      cases hu : u.isColon with
      | true =>
          rw [List.cons_append, List.cons_append, bind_eq_of_matched (hmatches u _ hu),
            bind_eq_of_matched (hmatches u _ hu)]
          exact (hf u us).after _ _
      | false =>
          apply of_refuses
          · exact refuses_bind_iff.2 (.inl (refuses_token_cons_iff.2 hu))
          · exact refuses_bind_iff.2 (.inl (refuses_token_cons_iff.2 hu))

end Reaches

end Production

/-! ## Selectors -/

namespace Grammar

open Production

variable {g : Grammar} {function : Token} {span : Span} {more more' : List Token}

theorem reaches_arguments (hg : g.Sealed) (names : List String) (behind behind' : List Token)
    (function : Token) : Reaches names behind behind' (g.arguments function) := by
  intro front
  rcases hg function with ⟨arguments, hyields⟩ | hdeep
  · exact .matched (hyields _) (hyields _)
  · exact .tooDeep (hdeep _) (hdeep _)

theorem reaches_functionCall (hg : g.Sealed) (names : List String) :
    Reaches names (.atom .colon span :: more) (.atom .colon span :: more') (functionCall g) :=
  Reaches.bind (.token rfl) fun function =>
    (reaches_arguments hg names _ _ function).bind fun _ => .pure _

/-- What the arguments of a function keep is kept as soon as the function is met behind a
colon. -/
theorem keptIn_subset_behind_colon (hkept : g.KeepsAlone)
    (hfunction : function.isFunction = true) :
    g.keptIn function ⊆
      (firstOf [.plain <$> token Token.isIdent, functionCall g] (function :: more)).keptRaw := by
  have hplain : (PseudoClass.plain <$> token Token.isIdent).Refuses (function :: more) := by
    obtain ⟨_, _, _, rfl⟩ := Token.isFunction_iff.1 hfunction
    exact refuses_map_iff.2 (refuses_token_cons_iff.2 rfl)
  have hmatches : (token Token.isFunction).Matches (function :: more) function more :=
    matches_token_iff.2 ⟨rfl, hfunction⟩
  have hcall : g.keptIn function ⊆ (functionCall g (function :: more)).keptRaw := by
    rw [functionCall, keptRaw_bind_of_matched hmatches, ← hkept function more]
    exact List.subset_append_of_subset_right _ (keptRaw_subset_bind _ _ _)
  obtain ⟨stuck, hplain⟩ := hplain
  rw [firstOf_cons, orElse_eq_of_noMatch hplain]
  apply List.subset_append_of_subset_right
  exact List.Subset.trans hcall (keptRaw_subset_orElse _ _ _)

section Function

variable (hg : g.Sealed) (hkept : g.KeepsAlone) (hfunction : function.isFunction = true)
include hg hkept hfunction

theorem reaches_pseudoClass :
    Reaches (g.keptIn function) (.atom .colon span :: function :: more)
      (.atom .colon span :: function :: more') (pseudoClass g) := by
  rw [pseudoClass_eq]
  refine Reaches.colon_bind (fun _ => ?_) ?_
  · have hplain : Reaches (g.keptIn function) (.atom .colon span :: function :: more)
        (.atom .colon span :: function :: more') (PseudoClass.plain <$> token Token.isIdent) := by
      rw [← bind_pure_eq_map]
      exact Reaches.bind (.token rfl) fun _ => .pure _
    exact hplain.orElse ((reaches_functionCall hg _).orElse .fail)
  · exact .kept (keptIn_subset_behind_colon hkept hfunction)
      (keptIn_subset_behind_colon hkept hfunction)

theorem reaches_pseudoElement :
    Reaches (g.keptIn function) (.atom .colon span :: function :: more)
      (.atom .colon span :: function :: more') (pseudoElement g) := by
  have hclass : Reaches (g.keptIn function) (.atom .colon span :: function :: more)
      (.atom .colon span :: function :: more') (pseudoClass g) :=
    reaches_pseudoClass hg hkept hfunction
  have hclasses := @Congruence.many _ Reaches.congruence _ (pseudoClass g) (pseudoClass g) hclass
  refine Reaches.colon_bind (fun _ => ?_) ?_
  · exact hclass.bind fun _ => Reaches.bind hclasses fun _ => .pure _
  · -- a second colon would have to stand where the function does
    have hcolon : function.isColon = false := by
      obtain ⟨_, _, _, rfl⟩ := Token.isFunction_iff.1 hfunction
      rfl
    apply Reaches.of_refuses
    · exact refuses_bind_iff.2 (.inl (refuses_pseudoClass_cons hcolon))
    · exact refuses_bind_iff.2 (.inl (refuses_pseudoClass_cons hcolon))

theorem reaches_wholeList :
    Reaches (g.keptIn function) (.atom .colon span :: function :: more)
      (.atom .colon span :: function :: more') (wholeList g) := by
  have hcomma : Reaches (g.keptIn function) (.atom .colon span :: function :: more)
      (.atom .colon span :: function :: more') comma :=
    Reaches.bind Reaches.congruence.skip fun _ => .token rfl
  exact @Congruence.wholeList _ Reaches.congruence g g (reaches_pseudoClass hg hkept hfunction) rfl
    (reaches_pseudoElement hg hkept hfunction) hcomma

end Function

end Grammar

/-! ## Fronts -/

theorem Spells.exists_call {pieces : List Piece} {tokens rest : List Token} {function : Token}
    (h : Spells pieces tokens rest) (hcall : function.callPieces <:+: pieces) :
    ∃ before span more, tokens = before ++ .atom .colon span :: function :: more := by
  obtain ⟨left, right, rfl⟩ := hcall
  rw [List.append_assoc] at h
  obtain ⟨middle, hleft, hright⟩ := spells_append_iff.1 h
  obtain ⟨before, rfl, -⟩ := spells_iff_exists_taken.1 hleft
  obtain ⟨span, _, rfl, more, rfl, -⟩ := hright
  exact ⟨before, span, more, rfl⟩

variable {options : Options} {front tokens : List Token} {list : List Selector}
  {call : Token × Arguments}

/-- A function of a list that was read stands behind a colon, before the text ends. -/
theorem exists_call_of_ok (hok : parseTokens options tokens = .ok list)
    (hcall : call ∈ Selector.callsOfList list) :
    call.1.isFunction = true ∧ ∃ before span more,
      tokens = before ++ .atom .colon span :: call.1 :: more ∧ ∀ t ∈ before, t.isEof = false := by
  obtain ⟨hlist, hspells⟩ := parseTokens_eq_ok_iff.1 hok
  obtain ⟨s, hs, hmem⟩ := List.mem_flatMap.1 hcall
  refine ⟨Selector.isFunction_of_mem_calls (hlist.wellFormed s hs) hmem, ?_⟩
  obtain ⟨before, span, more, hbefore⟩ :=
    hspells.exists_call (Selector.callPieces_of_mem_callsOfList hcall)
  obtain ⟨behind, hbehind, -⟩ := Token.exists_eq_beforeEof_append tokens
  refine ⟨before, span, more ++ behind, ?_, ?_⟩
  · rw [hbehind, hbefore]
    simp
  · intro t ht
    have htaken : t ∈ Token.beforeEof tokens := by simp [hbefore, ht]
    simpa using List.mem_takeWhile_imp htaken

theorem not_matches_of_ok {before more : List Token} {span : Span}
    (hok : parseTokens options (before ++ .atom .colon span :: more) = .ok list)
    (hbefore : ∀ t ∈ before, t.isEof = false) (items : List Selector) (left : List Token) :
    ¬ (Grammar.ofLevels options.dialect options.maxDepth).wholeList.Matches
      (before ++ .atom .colon span :: more) items (left ++ .atom .colon span :: more) := by
  intro hmatches
  obtain ⟨rest, hmatches', hend⟩ := parseTokens_eq_ok_iff_matches.1 hok
  obtain ⟨-, rfl⟩ := hmatches.unique hmatches'
  have hpasses := (Grammar.heeds_wholeList_ofLevels _).advances.passes_of_matches hmatches
  obtain ⟨taken, htaken⟩ := hpasses.suffix
  rw [← List.append_assoc] at htaken
  obtain rfl := List.append_cancel_right htaken
  have hleft : ∀ t ∈ left, t.isEof = false := fun t ht => hbefore t (List.mem_append_right _ ht)
  rw [Token.atEnd_append_solid hleft rfl rfl] at hend
  cases hend

theorem keptRaw_subset_of_front (hfront : front <+: tokens)
    (hok : parseTokens options front = .ok list) :
    (readTokens options front).keptRaw ⊆ (readTokens options tokens).keptRaw := by
  intro name hname
  obtain ⟨back, rfl⟩ := hfront
  rw [keptRaw_of_ok hok] at hname
  obtain ⟨call, hcall, hname⟩ := List.mem_flatMap.1 hname
  obtain ⟨hfunction, before, span, more, rfl, hbefore⟩ := exists_call_of_ok hok hcall
  obtain ⟨rest, hmatches, -⟩ := parseTokens_eq_ok_iff_matches.1 hok
  have hreaches : Production.Reaches _ (.atom .colon span :: call.1 :: more)
      (.atom .colon span :: call.1 :: (more ++ back)) (Grammar.wholeList _) :=
    Grammar.reaches_wholeList (Grammar.sealed_ofLevels options.dialect options.maxDepth)
      (Grammar.keepsAlone_ofLevels _ _) hfunction
  rw [List.append_assoc]
  cases hreaches before with
  | kept _ h => exact h hname
  | matched h _ => exact absurd h (not_matches_of_ok hok hbefore _ _)
  | noMatch h _ => exact absurd ⟨_, h⟩ hmatches.not_refuses
  | tooDeep h _ => exact absurd h hmatches.not_overflows

end CssSelectors
