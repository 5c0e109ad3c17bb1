import CssSelectors.Proofs.Congruence
import CssSelectors.Proofs.Locality

/-!
# Where reading stops

No selector reads a comma outside of its functions, and nothing reads the end of the text.
Up to such a stop, tokens are read as if they were all. The stop itself may be looked at,
but only where without it there would be no more tokens, and nothing behind it ever is.
-/

namespace CssSelectors

variable {α β : Type}

theorem Token.dropWhile_append_solid {front behind : List Token} {t : Token}
    (ht : t.isInsignificant = false) :
    (front ++ t :: behind).dropWhile isInsignificant =
      front.dropWhile isInsignificant ++ t :: behind := by
  rw [List.dropWhile_append]
  split
  · next hnil =>
      rw [List.isEmpty_iff.1 hnil, List.nil_append, List.dropWhile_cons_of_neg (by simp [ht])]
  · rfl

theorem Token.takeWhile_append_solid {front behind : List Token} {t : Token}
    (ht : t.isInsignificant = false) :
    (front ++ t :: behind).takeWhile isInsignificant = front.takeWhile isInsignificant := by
  have hsplit : front.takeWhile isInsignificant ++
      (front.dropWhile isInsignificant ++ t :: behind) = front ++ t :: behind := by
    rw [← List.append_assoc, List.takeWhile_append_dropWhile]
  rw [← hsplit]
  apply takeWhile_append_of_solid all_insignificant_takeWhile
  rw [← Token.dropWhile_append_solid ht]
  exact solid_dropWhile

/-- Tokens do not end where a token follows them that is neither blank nor the end. -/
theorem Token.atEnd_append_solid {front behind : List Token} {t : Token}
    (h : ∀ t ∈ front, t.isEof = false) (ht : t.isInsignificant = false) (heof : t.isEof = false) :
    Token.atEnd (front ++ t :: behind) = false := by
  rw [Token.atEnd, Token.dropWhile_append_solid ht]
  cases hdrop : front.dropWhile Token.isInsignificant with
  | nil => exact heof
  | cons u us => exact h u ((List.dropWhile_suffix Token.isInsignificant).subset (by simp [hdrop]))

/-! ## Readings before a stop -/

namespace Reading

theorem least_eq_zero_iff {m n : Option Nat} :
    least m n = some 0 ↔ m = some 0 ∨ n = some 0 := by
  cases m with
  | none => simp [least]
  | some m =>
      cases n with
      | none => simp [least]
      | some n =>
          simp only [least, Option.some.injEq]
          omega

theorem exists_mem_least_of_left {m n : Option Nat} {bound : Nat} (h : ∃ k ∈ m, k ≤ bound) :
    ∃ k ∈ least m n, k ≤ bound := by
  obtain ⟨k, rfl, hk⟩ := h
  cases n with
  | none => exact ⟨k, rfl, hk⟩
  | some n => exact ⟨min k n, rfl, Nat.le_trans (Nat.min_le_left k n) hk⟩

theorem exists_mem_least_of_right {m n : Option Nat} {bound : Nat} (h : ∃ k ∈ n, k ≤ bound) :
    ∃ k ∈ least m n, k ≤ bound := by
  obtain ⟨k, rfl, hk⟩ := h
  cases m with
  | none => exact ⟨k, rfl, hk⟩
  | some m => exact ⟨min m k, rfl, Nat.le_trans (Nat.min_le_right m k) hk⟩

/-- One reading is of the tokens in front of a stop alone, the other with the stop and what stands
behind it. -/
structure Stopped (front : List Token) (stop : Token) (behind : List Token)
    (reading stopped : Reading α) : Prop where
  outcome : stopped.outcome = reading.outcome.append (stop :: behind)
  /-- Tokens are passed only by looking at them. -/
  passed : ∀ rest ∈ reading.outcome.left?, rest = front ∨ ∃ n ∈ reading.unread, n ≤ rest.length
  /-- The stop is looked at only behind the last token in front of it. -/
  unread : stopped.unread = reading.unread.map (· + (behind.length + 1)) ∨
    stopped.unread = some behind.length ∧ (front = [] ∨ reading.unread = some 0)

namespace Stopped

variable {front rest behind : List Token} {stop : Token} {reading stopped : Reading α}

theorem spares (h : reading.Stopped front stop behind stopped) : stopped.Spares behind := by
  intro n hn
  rcases h.unread with hunread | ⟨hunread, -⟩
  · rw [hunread] at hn
    obtain ⟨m, -, rfl⟩ := Option.map_eq_some_iff.1 hn
    omega
  · rw [hunread] at hn
    obtain rfl := Option.some.inj hn
    exact Nat.le_refl _

theorem matched (h : reading.Stopped front stop behind stopped) {a : α}
    (ha : reading.outcome = .matched a rest) :
    stopped.outcome = .matched a (rest ++ stop :: behind) := by
  rw [h.outcome, ha]
  rfl

theorem noMatch (h : reading.Stopped front stop behind stopped)
    (hstuck : reading.outcome = .noMatch rest) :
    stopped.outcome = .noMatch (rest ++ stop :: behind) := by
  rw [h.outcome, hstuck]
  rfl

theorem tooDeep (h : reading.Stopped front stop behind stopped)
    (hdeep : reading.outcome = .tooDeep) : stopped.outcome = .tooDeep := by
  rw [h.outcome, hdeep]
  rfl

theorem replace (h : reading.Stopped front stop behind stopped) {outcome : Outcome β}
    (hleft : ∀ rest ∈ outcome.left?, rest ∈ reading.outcome.left?) (kept kept' : List String) :
    Reading.Stopped front stop behind ⟨outcome, reading.unread, kept⟩
      ⟨outcome.append (stop :: behind), stopped.unread, kept'⟩ where
  outcome := rfl
  passed := fun rest hrest => h.passed rest (hleft rest hrest)
  unread := h.unread

theorem map (h : reading.Stopped front stop behind stopped) (f : α → β) :
    (reading.map f).Stopped front stop behind (stopped.map f) where
  outcome := by
    simp only [Reading.map]
    rw [h.outcome]
    cases reading.outcome <;> rfl
  passed := by
    intro rest hrest
    rw [left?_map] at hrest
    exact h.passed rest hrest
  unread := h.unread

theorem after {earlier stopped' : Reading α} {reading stopped : Reading β}
    (hearlier : earlier.Stopped front stop behind stopped')
    (hrest : rest = front ∨ ∃ n ∈ earlier.unread, n ≤ rest.length)
    (h : reading.Stopped rest stop behind stopped) :
    (reading.after earlier).Stopped front stop behind (stopped.after stopped') where
  outcome := h.outcome
  passed := by
    intro left hleft
    rcases h.passed left hleft with rfl | hlooked
    · exact hrest.imp_right exists_mem_least_of_left
    · exact .inr (exists_mem_least_of_right hlooked)
  unread := by
    simp only [Reading.after]
    rcases hearlier.unread with hearly | ⟨hearly, hfront⟩
    · rcases h.unread with hlate | ⟨hlate, hend⟩
      · left
        rw [hearly, hlate, least_map_add]
      · -- the stop is looked at by the further reading alone
        right
        refine ⟨?_, ?_⟩
        · rw [hearly, hlate]
          cases earlier.unread with
          | none => rfl
          | some n =>
              have hle : behind.length ≤ n + (behind.length + 1) := by omega
              exact congrArg some (Nat.min_eq_right hle)
        · rw [least_eq_zero_iff]
          rcases hend with rfl | hzero
          · rcases hrest with rfl | ⟨n, hn, hle⟩
            · exact .inl rfl
            · obtain rfl : n = 0 := Nat.le_zero.1 hle
              exact .inr (.inl hn)
          · exact .inr (.inr hzero)
    · right
      refine ⟨?_, hfront.imp_right fun hzero => least_eq_zero_iff.2 (.inl hzero)⟩
      rw [hearly]
      cases hlate : stopped.unread with
      | none => rfl
      | some n =>
          have hle : behind.length ≤ n := h.spares n hlate
          exact congrArg some (Nat.min_eq_left hle)

end Stopped

end Reading

namespace Production

/-! ## Productions before a stop -/

/-- The one production reads up to a stop as the other does where the tokens end. -/
def StopsAt (stop : Atom) (p p' : Production α) : Prop :=
  ∀ front span behind,
    (p' front).Stopped front (.atom stop span) behind (p (front ++ .atom stop span :: behind))

namespace StopsAt

variable {stop : Atom}

theorem pure (a : α) : StopsAt stop (pure a) (pure a) :=
  fun _ _ _ => ⟨rfl, by rintro _ ⟨⟩; exact .inl rfl, .inl rfl⟩

theorem fail : StopsAt stop (fail : Production α) fail :=
  fun _ _ _ => ⟨rfl, by rintro _ ⟨⟩; exact .inl rfl, .inl rfl⟩

theorem token {accept : Token → Bool} (haccept : ∀ span, accept (.atom stop span) = false) :
    StopsAt stop (token accept) (token accept) := by
  intro front span behind
  cases front with
  | nil =>
      refine ⟨?_, by rintro _ ⟨⟩; exact .inl rfl, .inr ⟨rfl, .inl rfl⟩⟩
      simp [Production.token, haccept, Outcome.append]
  | cons t ts =>
      have hlength : (ts ++ .atom stop span :: behind).length =
          ts.length + (behind.length + 1) := by
        rw [List.length_append, List.length_cons]
      refine ⟨?_, ?_, .inl (congrArg some hlength)⟩
      · cases ht : accept t <;> simp [Production.token, ht, Outcome.append]
      · intro rest hrest
        cases ht : accept t with
        | true =>
            simp only [Production.token, ht, if_true, Outcome.left?, Option.mem_some_iff] at hrest
            exact .inr ⟨ts.length, rfl, hrest ▸ Nat.le_refl _⟩
        | false =>
            simp only [Production.token, ht, Bool.false_eq_true, if_false, Outcome.left?,
              Option.mem_some_iff] at hrest
            exact .inl hrest.symm

theorem insignificant (hstop : ∀ span, (Token.atom stop span).isInsignificant = false) :
    StopsAt stop insignificant insignificant := by
  intro front span behind
  have htaken : (front ++ .atom stop span :: behind).takeWhile Token.isInsignificant = _ :=
    Token.takeWhile_append_solid (hstop span)
  have hrest : (front ++ .atom stop span :: behind).dropWhile Token.isInsignificant = _ :=
    Token.dropWhile_append_solid (hstop span)
  constructor
  · simp only [Production.insignificant, htaken, hrest, Outcome.append]
  · rintro _ ⟨⟩
    cases hblank : front.takeWhile Token.isInsignificant with
    | nil =>
        left
        have hsplit : front.takeWhile Token.isInsignificant ++
            front.dropWhile Token.isInsignificant = front := List.takeWhile_append_dropWhile
        rwa [hblank] at hsplit
    | cons t ts =>
        right
        simp [Production.insignificant, hblank]
  · left
    simp only [Production.insignificant, htaken, hrest, List.length_append, List.length_cons]
    split <;> rfl

theorem bind {p p' : Production α} {f f' : α → Production β} (hp : StopsAt stop p p')
    (hf : ∀ a, StopsAt stop (f a) (f' a)) : StopsAt stop (p >>= f) (p' >>= f') := by
  intro front span behind
  have hreading := hp front span behind
  cases houtcome : (p' front).outcome with
  | matched a rest =>
      rw [bind_eq_of_matched houtcome, bind_eq_of_matched (hreading.matched houtcome)]
      have hrest := hreading.passed rest (by rw [houtcome]; rfl)
      exact hreading.after hrest (hf a rest span behind)
  | noMatch stuck =>
      rw [bind_eq_of_noMatch houtcome, bind_eq_of_noMatch (hreading.noMatch houtcome)]
      exact hreading.replace (fun rest hrest => by rwa [houtcome]) _ _
  | tooDeep =>
      rw [bind_eq_of_tooDeep houtcome, bind_eq_of_tooDeep (hreading.tooDeep houtcome)]
      exact hreading.replace (by rintro _ ⟨⟩) _ _

theorem orElse {p p' q q' : Production α} (hp : StopsAt stop p p') (hq : StopsAt stop q q') :
    StopsAt stop (orElse p q) (orElse p' q') := by
  intro front span behind
  have hreading := hp front span behind
  by_cases hrefuses : p'.Refuses front
  · obtain ⟨stuck, houtcome⟩ := hrefuses
    rw [orElse_eq_of_noMatch houtcome, orElse_eq_of_noMatch (hreading.noMatch houtcome)]
    exact hreading.after (.inl rfl) (hq front span behind)
  · have hrefuses' : ¬ p.Refuses (front ++ .atom stop span :: behind) := by
      rintro ⟨stuck, hstuck⟩
      rw [hreading.outcome] at hstuck
      cases houtcome : (p' front).outcome with
      | noMatch stuck' => exact hrefuses ⟨stuck', houtcome⟩
      | matched a rest => simp [houtcome, Outcome.append] at hstuck
      | tooDeep => simp [houtcome, Outcome.append] at hstuck
    rw [orElse_eq_of_not_refuses hrefuses, orElse_eq_of_not_refuses hrefuses']
    exact hreading

theorem iterate {step step' : Production (Option α)} (h : StopsAt stop step step') :
    StopsAt stop (iterate step) (iterate step') := by
  intro front span behind
  induction hn : front.length using Nat.strongRecOn generalizing front with
  | ind n ih =>
      have hreading := h front span behind
      cases houtcome : (step' front).outcome with
      | matched item rest =>
          have hleft : rest ∈ (step' front).outcome.left? := by rw [houtcome]; rfl
          have houtcome' := hreading.matched houtcome
          cases item with
          | none =>
              rw [iterate_eq_of_none houtcome, iterate_eq_of_none houtcome']
              exact hreading.replace (by rintro _ ⟨⟩; exact hleft) _ _
          | some a =>
              have hlength : (rest ++ .atom stop span :: behind).length <
                  (front ++ .atom stop span :: behind).length ↔ rest.length < front.length := by
                simp
              by_cases hlt : rest.length < front.length
              · rw [iterate_eq_of_lt houtcome hlt, iterate_eq_of_lt houtcome' (hlength.2 hlt)]
                have hrest := ih rest.length (hn ▸ hlt) rest rfl
                exact hreading.after (hreading.passed rest hleft) (hrest.map _)
              · rw [iterate_eq_of_not_lt houtcome hlt,
                  iterate_eq_of_not_lt houtcome' (mt hlength.1 hlt)]
                exact hreading.replace (by rintro _ ⟨⟩; exact hleft) _ _
      | noMatch stuck =>
          rw [iterate_eq_of_noMatch houtcome, iterate_eq_of_noMatch (hreading.noMatch houtcome)]
          exact hreading.replace (fun rest hrest => by rwa [houtcome]) _ _
      | tooDeep =>
          rw [iterate_eq_of_tooDeep houtcome, iterate_eq_of_tooDeep (hreading.tooDeep houtcome)]
          exact hreading.replace (by rintro _ ⟨⟩) _ _

theorem congruence (hstop : stop = .comma ∨ stop = .eof) : Congruence fun _ => StopsAt stop where
  pure := pure
  fail := fail
  token := by
    intro accept haccept
    rcases hstop with rfl | rfl
    · exact token fun span => (haccept span).1
    · exact token fun span => (haccept span).2.1
  insignificant := by
    rcases hstop with rfl | rfl
    · exact insignificant fun _ => rfl
    · exact insignificant fun _ => rfl
  bind := bind
  orElse := orElse
  iterate := iterate

end StopsAt

end Production

namespace Grammar

open Production

variable {stop : Atom} {dialect : Dialect} {levels : Nat}

theorem stopsAt_functionCall (hstop : stop = .comma ∨ stop = .eof) :
    StopsAt stop (functionCall (ofLevels dialect levels))
      (functionCall (ofLevels dialect levels)) := by
  have harguments (function : Token) :
      StopsAt stop ((ofLevels dialect levels).arguments function)
        ((ofLevels dialect levels).arguments function) := by
    intro front span behind
    have hunread := unread_arguments dialect levels function
    rcases sealed_ofLevels dialect levels function with ⟨arguments, hyields⟩ | hdeep
    · refine ⟨?_, ?_, .inl ?_⟩
      · exact (hyields _).trans (congrArg (Outcome.append _) (hyields front).symm)
      · rw [show _ = Outcome.matched arguments front from hyields front]
        rintro _ ⟨⟩
        exact .inl rfl
      · rw [hunread, hunread]
        rfl
    · refine ⟨?_, ?_, .inl ?_⟩
      · exact (hdeep _).trans (congrArg (Outcome.append _) (hdeep front).symm)
      · rw [show _ = Outcome.tooDeep from hdeep front]
        exact fun _ hrest => nomatch hrest
      · rw [hunread, hunread]
        rfl
  refine StopsAt.bind (StopsAt.token fun _ => ?_) fun function => ?_
  · rcases hstop with rfl | rfl <;> rfl
  · exact (harguments function).bind fun _ => .pure _

theorem stopsAt_colon (hstop : stop = .comma ∨ stop = .eof) :
    StopsAt stop (token Token.isColon) (token Token.isColon) :=
  StopsAt.token fun _ => by rcases hstop with rfl | rfl <;> rfl

theorem stopsAt_pseudoClass (hstop : stop = .comma ∨ stop = .eof) :
    StopsAt stop (pseudoClass (ofLevels dialect levels)) (pseudoClass (ofLevels dialect levels)) :=
  (StopsAt.congruence hstop).pseudoClass (stopsAt_colon hstop) (stopsAt_functionCall hstop)

theorem stopsAt_pseudoElement (hstop : stop = .comma ∨ stop = .eof) :
    StopsAt stop (pseudoElement (ofLevels dialect levels))
      (pseudoElement (ofLevels dialect levels)) :=
  (StopsAt.congruence hstop).pseudoElement (stopsAt_pseudoClass hstop) (stopsAt_colon hstop)

/-- A selector is read up to a comma or the end of the text as if there were no more tokens. -/
theorem stopsAt_selector (hstop : stop = .comma ∨ stop = .eof) :
    StopsAt stop (selector (ofLevels dialect levels)) (selector (ofLevels dialect levels)) :=
  (StopsAt.congruence hstop).selector (stopsAt_pseudoClass hstop) rfl (stopsAt_pseudoElement hstop)

/-- A list is read up to the end of the text as if there were no more tokens. -/
theorem stopsAt_wholeList :
    StopsAt .eof (wholeList (ofLevels dialect levels)) (wholeList (ofLevels dialect levels)) := by
  have hcongruence := StopsAt.congruence (.inr rfl : Atom.eof = .comma ∨ Atom.eof = .eof)
  have hcomma : StopsAt .eof comma comma :=
    hcongruence.skip.bind fun _ => .token fun _ => rfl
  exact hcongruence.wholeList (stopsAt_pseudoClass (.inr rfl)) rfl
    (stopsAt_pseudoElement (.inr rfl)) hcomma

end Grammar

end CssSelectors
