import CssSelectors.Proofs.Acceptance
import Mathlib.Data.List.TakeWhile

/-!
# What readings depend on

A reading keeps count of the tokens behind the furthest one that was looked at. Here that
count is shown to be honest: whatever is put in place of the tokens that were not looked
at, a production reads the same. Blank text is the one exception, since a run of it may
end before a token that nothing has looked at yet. Such a production is called loose, and
has to be followed by one that looks at the next token.
-/

namespace CssSelectors

variable {α β : Type}

/-- The tokens are left behind some that do not end the text. -/
def Token.Passes (tokens rest : List Token) : Prop :=
  ∃ taken, tokens = taken ++ rest ∧ ∀ t ∈ taken, t.isEof = false

namespace Token.Passes

variable {tokens middle rest : List Token}

theorem refl (tokens : List Token) : Passes tokens tokens :=
  ⟨[], rfl, by simp⟩

theorem trans (h : Passes tokens middle) (h' : Passes middle rest) : Passes tokens rest := by
  obtain ⟨taken, rfl, htaken⟩ := h
  obtain ⟨taken', rfl, htaken'⟩ := h'
  refine ⟨taken ++ taken', (List.append_assoc ..).symm, ?_⟩
  exact List.forall_mem_append.2 ⟨htaken, htaken'⟩

theorem suffix (h : Passes tokens rest) : rest <:+ tokens := by
  obtain ⟨taken, rfl, -⟩ := h
  exact List.suffix_append taken rest

theorem exists_isEof (h : Passes tokens rest) (heof : ∃ t ∈ tokens, t.isEof = true) :
    ∃ t ∈ rest, t.isEof = true := by
  obtain ⟨taken, rfl, htaken⟩ := h
  obtain ⟨t, ht, heof⟩ := heof
  rcases List.mem_append.1 ht with ht | ht
  · rw [htaken t ht] at heof
    cases heof
  · exact ⟨t, ht, heof⟩

end Token.Passes

namespace Outcome

/-- The tokens before which a reading ended, unless it was cut off. -/
def left? : Outcome α → Option (List Token)
  | .matched _ rest => some rest
  | .noMatch stuck => some stuck
  | .tooDeep => none

def append (back : List Token) : Outcome α → Outcome α
  | .matched a rest => .matched a (rest ++ back)
  | .noMatch stuck => .noMatch (stuck ++ back)
  | .tooDeep => .tooDeep

end Outcome

namespace Reading

def append (reading : Reading α) (back : List Token) : Reading α :=
  { outcome := reading.outcome.append back
    unread := reading.unread.map (· + back.length)
    keptRaw := reading.keptRaw }

/-- Nothing was looked at in the tokens at the back. -/
def Spares (reading : Reading α) (back : List Token) : Prop :=
  ∀ n ∈ reading.unread, back.length ≤ n

theorem Spares.of_length_le {reading : Reading α} {back back' : List Token}
    (h : reading.Spares back) (hle : back'.length ≤ back.length) : reading.Spares back' :=
  fun n hn => Nat.le_trans hle (h n hn)

theorem spares_after_iff {reading : Reading α} {earlier : Reading β} {back : List Token} :
    (reading.after earlier).Spares back ↔ earlier.Spares back ∧ reading.Spares back := by
  unfold Spares after
  cases earlier.unread with
  | none => simp [least]
  | some m =>
      cases reading.unread with
      | none => simp [least]
      | some n =>
          simp only [least, Option.mem_some_iff, forall_eq']
          exact Nat.le_min

theorem least_map_add (m n : Option Nat) (k : Nat) :
    (least m n).map (· + k) = least (m.map (· + k)) (n.map (· + k)) := by
  cases m with
  | none => rfl
  | some m =>
      cases n with
      | none => rfl
      | some n => simp [least, Nat.add_min_add_right]

theorem append_after (reading : Reading α) (earlier : Reading β) (back : List Token) :
    (reading.after earlier).append back = (reading.append back).after (earlier.append back) := by
  simp only [append, after, least_map_add]

theorem left?_map (reading : Reading α) (f : α → β) :
    (reading.map f).outcome.left? = reading.outcome.left? := by
  unfold map
  cases reading.outcome <;> rfl

theorem append_map (reading : Reading α) (f : α → β) (back : List Token) :
    (reading.map f).append back = (reading.append back).map f := by
  unfold append map
  cases reading.outcome <;> rfl

end Reading

namespace Production

variable {p q : Production α} {f : α → Production β} {front back tokens : List Token}

/-- The front of some tokens decides what is read, whatever stands behind it. -/
def DecidedBy (p : Production α) (front : List Token) : Prop :=
  ∃ reading : Reading α, ∀ back, p (front ++ back) = reading.append back

/-- If nothing was looked at behind the front, the front decides what is read. A loose
production may also stop right behind it. -/
def HeedsAt (loose : Prop) (p : Production α) (front back : List Token) : Prop :=
  (p (front ++ back)).Spares back →
    p.DecidedBy front ∨ loose ∧ ∃ a, p.Matches (front ++ back) a back

/-- The production ends within the tokens, and before their end if they have one. -/
def Advances (p : Production α) : Prop :=
  ∀ tokens, ∀ rest ∈ (p tokens).outcome.left?, Token.Passes tokens rest

structure Heeds (loose : Prop) (p : Production α) : Prop where
  advances : p.Advances
  decided : ∀ front back, (∃ t ∈ front ++ back, t.isEof = true) → p.HeedsAt loose front back

/-- The production looks at the first token, if there is one. -/
def LooksFirst (p : Production α) : Prop :=
  ∀ tokens, tokens ≠ [] → ¬ (p tokens).Spares tokens

/-! ## Decided readings -/

theorem decidedBy_pure (a : α) (front : List Token) : (pure a : Production α).DecidedBy front :=
  ⟨⟨.matched a front, none, []⟩, fun _ => rfl⟩

theorem decidedBy_fail (front : List Token) : (fail : Production α).DecidedBy front :=
  ⟨⟨.noMatch front, none, []⟩, fun _ => rfl⟩

theorem DecidedBy.map (hp : p.DecidedBy front) (f : α → β) : (f <$> p).DecidedBy front := by
  obtain ⟨reading, hp⟩ := hp
  refine ⟨reading.map f, fun back => ?_⟩
  change (p (front ++ back)).map f = _
  rw [hp, Reading.append_map]

theorem DecidedBy.bind (hp : p.DecidedBy front)
    (hf : ∀ a rest, (∀ back, p.Matches (front ++ back) a (rest ++ back)) → (f a).DecidedBy rest) :
    (p >>= f).DecidedBy front := by
  obtain ⟨reading, hp⟩ := hp
  have houtcome (back : List Token) :
      (p (front ++ back)).outcome = reading.outcome.append back := by
    rw [hp]
    rfl
  cases hreading : reading.outcome with
  | matched a rest =>
      rw [hreading] at houtcome
      obtain ⟨next, hnext⟩ := hf a rest houtcome
      refine ⟨next.after reading, fun back => ?_⟩
      rw [bind_eq_of_matched (houtcome back), hp, Reading.append_after]
      exact congrArg (Reading.after · _) (hnext back)
  | noMatch stuck =>
      rw [hreading] at houtcome
      refine ⟨⟨.noMatch stuck, reading.unread, reading.keptRaw⟩, fun back => ?_⟩
      rw [bind_eq_of_noMatch (houtcome back), hp]
      rfl
  | tooDeep =>
      rw [hreading] at houtcome
      refine ⟨⟨.tooDeep, reading.unread, reading.keptRaw⟩, fun back => ?_⟩
      rw [bind_eq_of_tooDeep (houtcome back), hp]
      rfl

theorem refuses_iff_of_append {reading : Reading α}
    (hp : ∀ back, p (front ++ back) = reading.append back) :
    p.Refuses (front ++ back) ↔ ∃ stuck, reading.outcome = .noMatch stuck := by
  unfold Refuses
  rw [hp, Reading.append]
  cases reading.outcome <;> simp [Outcome.append]

theorem DecidedBy.orElse (hp : p.DecidedBy front)
    (hq : p.Refuses (front ++ back) → q.DecidedBy front) : (orElse p q).DecidedBy front := by
  obtain ⟨reading, hp⟩ := hp
  by_cases hrefuses : p.Refuses (front ++ back)
  · obtain ⟨next, hq⟩ := hq hrefuses
    refine ⟨next.after reading, fun back' => ?_⟩
    obtain ⟨stuck, houtcome⟩ : p.Refuses (front ++ back') :=
      (refuses_iff_of_append hp).2 ((refuses_iff_of_append hp).1 hrefuses)
    rw [orElse_eq_of_noMatch houtcome, hp, hq, Reading.append_after]
  · refine ⟨reading, fun back' => ?_⟩
    have hrefuses' : ¬ p.Refuses (front ++ back') :=
      fun h => hrefuses ((refuses_iff_of_append hp).2 ((refuses_iff_of_append hp).1 h))
    rw [orElse_eq_of_not_refuses hrefuses', hp]

/-- A repetition is decided where its step is, and behind an item the rest of it. -/
theorem DecidedBy.iterate {step : Production (Option α)} (hstep : step.DecidedBy front)
    (hrest : ∀ a rest, (∀ back, step.Matches (front ++ back) (some a) (rest ++ back)) →
      rest.length < front.length → (iterate step).DecidedBy rest) :
    (iterate step).DecidedBy front := by
  obtain ⟨reading, hstep⟩ := hstep
  have houtcome (back : List Token) :
      (step (front ++ back)).outcome = reading.outcome.append back := by
    rw [hstep]
    rfl
  cases hreading : reading.outcome with
  | matched item rest =>
      rw [hreading] at houtcome
      cases item with
      | none =>
          refine ⟨⟨.matched [] rest, reading.unread, reading.keptRaw⟩, fun back => ?_⟩
          rw [iterate_eq_of_none (houtcome back), hstep]
          rfl
      | some a =>
          have hlength (back : List Token) :
              (rest ++ back).length < (front ++ back).length ↔ rest.length < front.length := by
            simp
          by_cases hlt : rest.length < front.length
          · obtain ⟨next, hnext⟩ := hrest a rest houtcome hlt
            refine ⟨(next.map (a :: ·)).after reading, fun back => ?_⟩
            rw [iterate_eq_of_lt (houtcome back) ((hlength back).2 hlt), hstep, hnext,
              Reading.append_after, Reading.append_map]
          · refine ⟨⟨.matched [a] rest, reading.unread, reading.keptRaw⟩, fun back => ?_⟩
            rw [iterate_eq_of_not_lt (houtcome back) (mt (hlength back).1 hlt), hstep]
            rfl
  | noMatch stuck =>
      rw [hreading] at houtcome
      refine ⟨⟨.noMatch stuck, reading.unread, reading.keptRaw⟩, fun back => ?_⟩
      rw [iterate_eq_of_noMatch (houtcome back), hstep]
      rfl
  | tooDeep =>
      rw [hreading] at houtcome
      refine ⟨⟨.tooDeep, reading.unread, reading.keptRaw⟩, fun back => ?_⟩
      rw [iterate_eq_of_tooDeep (houtcome back), hstep]
      rfl

theorem decidedBy_insignificant (h : front.dropWhile Token.isInsignificant ≠ []) :
    insignificant.DecidedBy front := by
  obtain ⟨t, ts, hdrop⟩ := List.exists_cons_of_ne_nil h
  obtain ⟨blank, rfl, hblank⟩ :
      ∃ blank, front = blank ++ t :: ts ∧ ∀ u ∈ blank, u.isInsignificant = true :=
    ⟨_, by rw [← hdrop, List.takeWhile_append_dropWhile], all_insignificant_takeWhile⟩
  have ht : Solid (t :: ts) := hdrop ▸ solid_dropWhile
  refine ⟨⟨.matched blank (t :: ts), if blank.isEmpty then none else some (ts.length + 1), []⟩, ?_⟩
  intro back
  have hsolid : Solid (t :: (ts ++ back)) := solid_cons_iff.2 (solid_cons_iff.1 ht)
  have hlength : (t :: (ts ++ back)).length = ts.length + 1 + back.length := by
    rw [List.length_cons, List.length_append]
    omega
  rw [List.append_assoc, List.cons_append, insignificant, takeWhile_append_of_solid hblank hsolid,
    dropWhile_append_of_solid hblank hsolid, hlength]
  cases blank <;> rfl

/-! ## What a reading looks at -/

theorem spares_of_bind (h : ((p >>= f) tokens).Spares back) : (p tokens).Spares back := by
  cases houtcome : (p tokens).outcome with
  | matched a rest =>
      rw [bind_eq_of_matched houtcome] at h
      exact (Reading.spares_after_iff.1 h).1
  | noMatch stuck =>
      rw [bind_eq_of_noMatch houtcome] at h
      exact h
  | tooDeep =>
      rw [bind_eq_of_tooDeep houtcome] at h
      exact h

theorem spares_behind_of_bind {a : α} {rest : List Token} (hp : p.Matches tokens a rest)
    (h : ((p >>= f) tokens).Spares back) : (f a rest).Spares back := by
  rw [bind_eq_of_matched hp] at h
  exact (Reading.spares_after_iff.1 h).2

theorem spares_of_orElse (h : (orElse p q tokens).Spares back) : (p tokens).Spares back := by
  by_cases hrefuses : p.Refuses tokens
  · obtain ⟨stuck, houtcome⟩ := hrefuses
    rw [orElse_eq_of_noMatch houtcome] at h
    exact (Reading.spares_after_iff.1 h).1
  · rwa [orElse_eq_of_not_refuses hrefuses] at h

theorem spares_of_iterate {step : Production (Option α)}
    (h : (iterate step tokens).Spares back) : (step tokens).Spares back := by
  cases houtcome : (step tokens).outcome with
  | matched item rest =>
      cases item with
      | none => rwa [iterate_eq_of_none houtcome] at h
      | some a =>
          by_cases hlt : rest.length < tokens.length
          · rw [iterate_eq_of_lt houtcome hlt] at h
            exact (Reading.spares_after_iff.1 h).1
          · rwa [iterate_eq_of_not_lt houtcome hlt] at h
  | noMatch stuck => rwa [iterate_eq_of_noMatch houtcome] at h
  | tooDeep => rwa [iterate_eq_of_tooDeep houtcome] at h

theorem looksFirst_token (accept : Token → Bool) : LooksFirst (token accept) := by
  intro tokens hne h
  obtain ⟨t, ts, rfl⟩ := List.exists_cons_of_ne_nil hne
  have hle : (t :: ts).length ≤ ts.length := h ts.length rfl
  rw [List.length_cons] at hle
  omega

theorem LooksFirst.bind (hp : LooksFirst p) (f : α → Production β) : LooksFirst (p >>= f) :=
  fun tokens hne h => hp tokens hne (spares_of_bind h)

theorem LooksFirst.map (hp : LooksFirst p) (f : α → β) : LooksFirst (f <$> p) :=
  hp

theorem LooksFirst.orElse (hp : LooksFirst p) (q : Production α) : LooksFirst (orElse p q) :=
  fun tokens hne h => hp tokens hne (spares_of_orElse h)

theorem LooksFirst.firstOf (hp : LooksFirst p) (ps : List (Production α)) :
    LooksFirst (firstOf (p :: ps)) :=
  hp.orElse _

theorem LooksFirst.optional (hp : LooksFirst p) : LooksFirst (optional p) :=
  (hp.map some).orElse _

/-! ## Where a reading ends -/

theorem Advances.passes_of_matches (hp : p.Advances) {a : α} {rest : List Token}
    (h : p.Matches tokens a rest) : Token.Passes tokens rest := by
  apply hp
  unfold Matches at h
  rw [h]
  rfl

theorem Advances.passes_of_noMatch (hp : p.Advances) {stuck : List Token}
    (h : (p tokens).outcome = .noMatch stuck) : Token.Passes tokens stuck := by
  apply hp
  rw [h]
  rfl

theorem advances_pure (a : α) : (pure a : Production α).Advances := by
  intro tokens rest h
  cases h
  exact .refl _

theorem advances_fail : (fail : Production α).Advances := by
  intro tokens rest h
  cases h
  exact .refl _

theorem advances_token {accept : Token → Bool}
    (haccept : ∀ span, accept (.atom .eof span) = false) : (token accept).Advances := by
  intro tokens rest h
  cases tokens with
  | nil =>
      cases h
      exact .refl []
  | cons t ts =>
      by_cases ht : accept t = true
      · simp only [token, ht, if_true, Outcome.left?, Option.mem_some_iff] at h
        subst h
        exact ⟨[t], rfl, by simp [Token.isEof_eq_false haccept ht]⟩
      · simp only [token, ht, Outcome.left?] at h
        cases h
        exact .refl _

theorem advances_insignificant : insignificant.Advances := by
  intro tokens rest h
  cases h
  refine ⟨_, List.takeWhile_append_dropWhile.symm, fun t ht => ?_⟩
  exact Token.isEof_eq_false (fun _ => rfl) (all_insignificant_takeWhile t ht)

theorem Advances.bind (hp : p.Advances) (hf : ∀ a, (f a).Advances) : (p >>= f).Advances := by
  intro tokens rest h
  cases houtcome : (p tokens).outcome with
  | matched a middle =>
      rw [bind_eq_of_matched houtcome] at h
      exact (hp.passes_of_matches houtcome).trans (hf a middle rest h)
  | noMatch stuck =>
      rw [bind_eq_of_noMatch houtcome] at h
      cases h
      exact hp.passes_of_noMatch houtcome
  | tooDeep =>
      rw [bind_eq_of_tooDeep houtcome] at h
      cases h

theorem Advances.map (hp : p.Advances) (f : α → β) : (f <$> p).Advances := by
  intro tokens rest h
  apply hp
  change rest ∈ ((p tokens).map f).outcome.left? at h
  rwa [Reading.left?_map] at h

theorem Advances.orElse (hp : p.Advances) (hq : q.Advances) : (orElse p q).Advances := by
  intro tokens
  by_cases hrefuses : p.Refuses tokens
  · obtain ⟨stuck, houtcome⟩ := hrefuses
    rw [orElse_eq_of_noMatch houtcome]
    exact hq tokens
  · rw [orElse_eq_of_not_refuses hrefuses]
    exact hp tokens

theorem Advances.iterate {step : Production (Option α)} (h : step.Advances) :
    (iterate step).Advances := by
  intro tokens
  induction hn : tokens.length using Nat.strongRecOn generalizing tokens with
  | ind n ih =>
      intro rest hrest
      cases houtcome : (step tokens).outcome with
      | matched item middle =>
          have hpasses := h.passes_of_matches houtcome
          cases item with
          | none =>
              rw [iterate_eq_of_none houtcome] at hrest
              cases hrest
              exact hpasses
          | some a =>
              by_cases hlt : middle.length < tokens.length
              · rw [iterate_eq_of_lt houtcome hlt] at hrest
                refine hpasses.trans (ih middle.length (hn ▸ hlt) middle rfl rest ?_)
                exact Reading.left?_map (Production.iterate step middle) _ ▸ hrest
              · rw [iterate_eq_of_not_lt houtcome hlt] at hrest
                cases hrest
                exact hpasses
      | noMatch stuck =>
          rw [iterate_eq_of_noMatch houtcome] at hrest
          cases hrest
          exact h.passes_of_noMatch houtcome
      | tooDeep =>
          rw [iterate_eq_of_tooDeep houtcome] at hrest
          cases hrest

/-! ## Productions that heed what they look at -/

section Heeds

variable {loose loose' : Prop}

theorem Heeds.of_decided (hp : p.Advances) (hdecided : ∀ front, p.DecidedBy front) :
    p.Heeds loose :=
  ⟨hp, fun front _ _ _ => .inl (hdecided front)⟩

theorem heeds_pure (a : α) : (pure a : Production α).Heeds loose :=
  .of_decided (advances_pure a) (decidedBy_pure a)

theorem heeds_fail : (fail : Production α).Heeds loose :=
  .of_decided advances_fail decidedBy_fail

theorem heeds_token {accept : Token → Bool}
    (haccept : ∀ span, accept (.atom .eof span) = false) : (token accept).Heeds loose := by
  refine ⟨advances_token haccept, ?_⟩
  intro front back heof hspares
  cases front with
  | nil =>
      have hne : back ≠ [] := by
        rintro rfl
        simp at heof
      exact absurd hspares (looksFirst_token accept back hne)
  | cons t ts =>
      left
      by_cases ht : accept t = true
      · refine ⟨⟨.matched t ts, some ts.length, []⟩, fun back => ?_⟩
        simp [token, ht, Reading.append, Outcome.append]
      · refine ⟨⟨.noMatch (t :: ts), some ts.length, []⟩, fun back => ?_⟩
        simp [token, ht, Reading.append, Outcome.append]

theorem heeds_insignificant : insignificant.Heeds True := by
  refine ⟨advances_insignificant, ?_⟩
  intro front back _ hspares
  by_cases hfront : front.dropWhile Token.isInsignificant = []
  · -- all of the front is taken, and the token behind it ends the run
    right
    have hdrop : (front ++ back).dropWhile Token.isInsignificant =
        back.dropWhile Token.isInsignificant :=
      List.dropWhile_append_of_pos (List.dropWhile_eq_nil_iff.1 hfront)
    have hsolid : Solid back := by
      by_cases htaken : ((front ++ back).takeWhile Token.isInsignificant).isEmpty = true
      · have hnil := List.isEmpty_iff.1 htaken
        rw [List.takeWhile_append_of_pos (List.dropWhile_eq_nil_iff.1 hfront),
          List.append_eq_nil_iff] at hnil
        have hsplit : back.takeWhile Token.isInsignificant ++
            back.dropWhile Token.isInsignificant = back := List.takeWhile_append_dropWhile
        rwa [hnil.2, List.nil_append] at hsplit
      · have hle := hspares _ (if_neg htaken)
        rw [hdrop] at hle
        have hsuffix : back.dropWhile Token.isInsignificant <:+ back := List.dropWhile_suffix _
        exact hsuffix.eq_of_length_le hle
    exact ⟨trivial, _, matches_insignificant_iff.2 ⟨rfl, (hdrop.trans hsolid).symm⟩⟩
  · exact .inl (decidedBy_insignificant hfront)

theorem Heeds.map (hp : p.Heeds loose) (f : α → β) : (f <$> p).Heeds loose := by
  refine ⟨hp.advances.map f, ?_⟩
  intro front back heof hspares
  rcases hp.decided front back heof hspares with hdecided | ⟨hloose, a, ha⟩
  · exact .inl (hdecided.map f)
  · exact .inr ⟨hloose, f a, matches_map_iff.2 ⟨a, rfl, ha⟩⟩

theorem Heeds.bind_of_looksFirst (hp : p.Heeds loose) (hf : ∀ a, (f a).Heeds loose')
    (hfirst : loose → ∀ a, LooksFirst (f a)) : (p >>= f).Heeds loose' := by
  refine ⟨hp.advances.bind fun a => (hf a).advances, ?_⟩
  intro front back heof hspares
  rcases hp.decided front back heof (spares_of_bind hspares) with hdecided | ⟨hloose, a, ha⟩
  · by_cases hstops : loose' ∧ ∃ b, (p >>= f).Matches (front ++ back) b back
    · exact .inr hstops
    · left
      refine hdecided.bind fun a rest hmatches => ?_
      have ha := hmatches back
      have heof' := (hp.advances.passes_of_matches ha).exists_isEof heof
      rcases (hf a).decided rest back heof' (spares_behind_of_bind ha hspares) with h | ⟨h, b, hb⟩
      · exact h
      · exact absurd ⟨h, b, matches_bind_iff.2 ⟨a, _, ha, hb⟩⟩ hstops
  · have hne : back ≠ [] := by
      obtain ⟨t, ht, -⟩ := (hp.advances.passes_of_matches ha).exists_isEof heof
      exact List.ne_nil_of_mem ht
    exact absurd (spares_behind_of_bind ha hspares) (hfirst hloose a back hne)

theorem Heeds.bind (hp : p.Heeds False) (hf : ∀ a, (f a).Heeds loose) : (p >>= f).Heeds loose :=
  hp.bind_of_looksFirst hf False.elim

theorem HeedsAt.orElse (hp : p.HeedsAt loose front back) (hq : q.HeedsAt loose front back) :
    (orElse p q).HeedsAt loose front back := by
  intro hspares
  by_cases hstops : loose ∧ ∃ a, (Production.orElse p q).Matches (front ++ back) a back
  · exact .inr hstops
  · left
    rcases hp (spares_of_orElse hspares) with hdecided | ⟨hloose, a, ha⟩
    · refine hdecided.orElse fun (hrefuses : p.Refuses (front ++ back)) => ?_
      have hspares' : (q (front ++ back)).Spares back := by
        obtain ⟨stuck, houtcome⟩ := hrefuses
        rw [orElse_eq_of_noMatch houtcome] at hspares
        exact (Reading.spares_after_iff.1 hspares).2
      rcases hq hspares' with hdecided' | ⟨hloose, a, ha⟩
      · exact hdecided'
      · exact absurd ⟨hloose, a, matches_orElse_iff.2 (.inr ⟨hrefuses, ha⟩)⟩ hstops
    · exact absurd ⟨hloose, a, matches_orElse_iff.2 (.inl ha)⟩ hstops

theorem Heeds.orElse (hp : p.Heeds loose) (hq : q.Heeds loose) : (orElse p q).Heeds loose where
  advances := hp.advances.orElse hq.advances
  decided := fun front back heof => (hp.decided front back heof).orElse (hq.decided front back heof)

theorem heeds_firstOf_nil : (firstOf ([] : List (Production α))).Heeds loose :=
  heeds_fail

theorem Heeds.firstOf_cons {ps : List (Production α)} (hp : p.Heeds loose)
    (hps : (firstOf ps).Heeds loose) : (firstOf (p :: ps)).Heeds loose :=
  hp.orElse hps

theorem Heeds.optional (hp : p.Heeds loose) : (optional p).Heeds loose :=
  (hp.map some).orElse (heeds_pure none)

theorem Heeds.iterate {step : Production (Option α)} (h : step.Heeds False) :
    (iterate step).Heeds loose := by
  refine ⟨h.advances.iterate, ?_⟩
  intro front back heof hspares
  left
  induction hn : front.length using Nat.strongRecOn generalizing front with
  | ind n ih =>
      have hstep : step.DecidedBy front := by
        refine (h.decided front back heof (spares_of_iterate hspares)).resolve_right ?_
        exact fun hstops => hstops.1
      refine hstep.iterate fun a rest hmatches hlt => ?_
      have ha := hmatches back
      have hlt' : (rest ++ back).length < (front ++ back).length := by simpa using hlt
      have heof' := (h.advances.passes_of_matches ha).exists_isEof heof
      refine ih rest.length (hn ▸ hlt) rest heof' ?_ rfl
      rw [iterate_eq_of_lt ha hlt'] at hspares
      exact (Reading.spares_after_iff.1 hspares).2

theorem Heeds.many (hp : p.Heeds False) : (many p).Heeds loose :=
  hp.optional.iterate

theorem heeds_skip : skip.Heeds True := by
  rw [show skip = (fun _ => ()) <$> insignificant from bind_pure_eq_map _ _]
  exact heeds_insignificant.map _

theorem Heeds.skip_bind {f : Unit → Production α} (hf : (f ()).Heeds loose)
    (hfirst : LooksFirst (f ())) : (skip >>= f).Heeds loose :=
  heeds_skip.bind_of_looksFirst (fun _ => hf) fun _ _ => hfirst

theorem heeds_spelled (symbol : List Char) : (spelled symbol).Heeds False := by
  induction symbol with
  | nil => exact heeds_pure []
  | cons c cs ih => exact (heeds_token fun _ => rfl).bind fun _ => ih.bind fun _ => heeds_pure _

theorem looksFirst_spelled {symbol : List Char} (h : symbol ≠ []) :
    LooksFirst (spelled symbol) := by
  obtain ⟨c, cs, rfl⟩ := List.exists_cons_of_ne_nil h
  exact (looksFirst_token _).bind _

end Heeds

end Production

end CssSelectors
