import CssSelectors.Grammar.Production
import Mathlib.Data.List.Forall2

/-!
# When productions match

A production either matches at the front of some tokens, refuses them, or meets
arguments that are nested too deeply. Each combinator gets the exact condition for the
first two, so that no later proof has to look into a reading.
-/

namespace CssSelectors

namespace Production

variable {α β : Type}

/-- The production reads `value` from the front of the tokens and leaves `rest`. -/
def Matches (p : Production α) (tokens : List Token) (value : α) (rest : List Token) : Prop :=
  (p tokens).outcome = .matched value rest

/-- The production does not match at the front of the tokens. -/
def Refuses (p : Production α) (tokens : List Token) : Prop :=
  ∃ stuck, (p tokens).outcome = .noMatch stuck

/-- The production meets arguments that are nested too deeply. -/
def Overflows (p : Production α) (tokens : List Token) : Prop :=
  (p tokens).outcome = .tooDeep

variable {p q : Production α} {tokens rest : List Token}

theorem matches_or_refuses_or_overflows (p : Production α) (tokens : List Token) :
    (∃ a rest, p.Matches tokens a rest) ∨ p.Refuses tokens ∨ p.Overflows tokens := by
  unfold Matches Refuses Overflows
  cases (p tokens).outcome <;> simp

theorem Matches.unique {a b : α} {rest' : List Token} (h : p.Matches tokens a rest)
    (h' : p.Matches tokens b rest') : a = b ∧ rest = rest' := by
  unfold Matches at h h'
  rw [h] at h'
  simpa using h'

theorem Matches.not_refuses {a : α} (h : p.Matches tokens a rest) : ¬ p.Refuses tokens := by
  rintro ⟨stuck, h'⟩
  unfold Matches at h
  rw [h] at h'
  cases h'

theorem Matches.not_overflows {a : α} (h : p.Matches tokens a rest) : ¬ p.Overflows tokens := by
  intro h'
  unfold Matches at h
  unfold Overflows at h'
  rw [h] at h'
  cases h'

theorem refuses_of_forall_not_matches (hdeep : ¬ p.Overflows tokens)
    (h : ∀ a rest, ¬ p.Matches tokens a rest) : p.Refuses tokens := by
  rcases matches_or_refuses_or_overflows p tokens with ⟨a, rest, hmatches⟩ | hrefuses | hover
  · exact absurd hmatches (h a rest)
  · exact hrefuses
  · exact absurd hover hdeep

/-! ## Sequence -/

@[simp] theorem matches_pure_iff {a b : α} :
    (pure a : Production α).Matches tokens b rest ↔ a = b ∧ tokens = rest := by
  change Outcome.matched a tokens = .matched b rest ↔ _
  simp

@[simp] theorem not_refuses_pure {a : α} : ¬ (pure a : Production α).Refuses tokens := by
  rintro ⟨stuck, h⟩
  cases h

@[simp] theorem not_overflows_pure {a : α} : ¬ (pure a : Production α).Overflows tokens := by
  intro h
  cases h

theorem bind_eq_of_matched {f : α → Production β} {a : α}
    (h : (p tokens).outcome = .matched a rest) :
    (p >>= f) tokens = (f a rest).after (p tokens) := by
  change Production.bind p f tokens = _
  simp only [Production.bind, h]

theorem bind_eq_of_noMatch {f : α → Production β} {stuck : List Token}
    (h : (p tokens).outcome = .noMatch stuck) :
    (p >>= f) tokens = ⟨.noMatch stuck, (p tokens).unread, (p tokens).keptRaw⟩ := by
  change Production.bind p f tokens = _
  simp only [Production.bind, h]

theorem bind_eq_of_tooDeep {f : α → Production β} (h : (p tokens).outcome = .tooDeep) :
    (p >>= f) tokens = ⟨.tooDeep, (p tokens).unread, (p tokens).keptRaw⟩ := by
  change Production.bind p f tokens = _
  simp only [Production.bind, h]

theorem outcome_bind (p : Production α) (f : α → Production β) (tokens : List Token) :
    ((p >>= f) tokens).outcome =
      match (p tokens).outcome with
      | .matched a rest => (f a rest).outcome
      | .noMatch stuck => .noMatch stuck
      | .tooDeep => .tooDeep := by
  change (Production.bind p f tokens).outcome = _
  unfold Production.bind
  cases h : (p tokens).outcome <;> simp [h, Reading.after]

@[simp] theorem matches_bind_iff {f : α → Production β} {b : β} :
    (p >>= f).Matches tokens b rest ↔
      ∃ a middle, p.Matches tokens a middle ∧ (f a).Matches middle b rest := by
  unfold Matches
  rw [outcome_bind]
  cases (p tokens).outcome <;> simp [and_assoc]

@[simp] theorem refuses_bind_iff {f : α → Production β} :
    (p >>= f).Refuses tokens ↔
      p.Refuses tokens ∨ ∃ a middle, p.Matches tokens a middle ∧ (f a).Refuses middle := by
  unfold Refuses Matches
  rw [outcome_bind]
  cases (p tokens).outcome <;> simp [and_assoc]

@[simp] theorem overflows_bind_iff {f : α → Production β} :
    (p >>= f).Overflows tokens ↔
      p.Overflows tokens ∨ ∃ a middle, p.Matches tokens a middle ∧ (f a).Overflows middle := by
  unfold Overflows Matches
  rw [outcome_bind]
  cases (p tokens).outcome <;> simp [and_assoc]

theorem Matches.refuses_bind_iff {f : α → Production β} {a : α} {middle : List Token}
    (h : p.Matches tokens a middle) : (p >>= f).Refuses tokens ↔ (f a).Refuses middle := by
  constructor
  · intro hr
    rcases Production.refuses_bind_iff.1 hr with hr | ⟨b, middle', hb, hr⟩
    · exact absurd hr h.not_refuses
    · obtain ⟨rfl, rfl⟩ := h.unique hb
      exact hr
  · intro hr
    exact Production.refuses_bind_iff.2 (.inr ⟨a, middle, h, hr⟩)

@[simp] theorem matches_map_iff {f : α → β} {b : β} :
    (f <$> p).Matches tokens b rest ↔ ∃ a, f a = b ∧ p.Matches tokens a rest := by
  change ((p tokens).map f).outcome = _ ↔ ∃ a, f a = b ∧ (p tokens).outcome = _
  unfold Reading.map
  cases (p tokens).outcome <;> simp [and_left_comm]

@[simp] theorem refuses_map_iff {f : α → β} : (f <$> p).Refuses tokens ↔ p.Refuses tokens := by
  change (∃ stuck, ((p tokens).map f).outcome = _) ↔ ∃ stuck, (p tokens).outcome = _
  unfold Reading.map
  cases (p tokens).outcome <;> simp

@[simp] theorem overflows_map_iff {f : α → β} :
    (f <$> p).Overflows tokens ↔ p.Overflows tokens := by
  change ((p tokens).map f).outcome = _ ↔ (p tokens).outcome = _
  unfold Reading.map
  cases (p tokens).outcome <;> simp

theorem bind_pure_eq_map (p : Production α) (f : α → β) :
    (p >>= fun a => pure (f a)) = f <$> p := by
  funext tokens
  change _ = (p tokens).map f
  cases houtcome : (p tokens).outcome with
  | matched a rest =>
      rw [bind_eq_of_matched houtcome]
      change (⟨.matched (f a) rest, _, _⟩ : Reading β) = _
      rw [Reading.map, houtcome]
      cases (p tokens).unread <;> simp [Reading.least, pure, Production.pure]
  | noMatch stuck => rw [bind_eq_of_noMatch houtcome, Reading.map, houtcome]
  | tooDeep => rw [bind_eq_of_tooDeep houtcome, Reading.map, houtcome]

theorem after_after {γ : Type} (reading : Reading α) (earlier : Reading β)
    (earliest : Reading γ) :
    (reading.after earlier).after earliest = reading.after (earlier.after earliest) := by
  unfold Reading.after
  rw [List.append_assoc]
  cases earliest.unread with
  | none => rfl
  | some l =>
      cases earlier.unread with
      | none => rfl
      | some m =>
          cases reading.unread with
          | none => rfl
          | some n => simp only [Reading.least, Nat.min_assoc]

theorem bind_assoc {γ : Type} (p : Production α) (f : α → Production β)
    (f' : β → Production γ) : (p >>= f >>= f') = p >>= fun a => f a >>= f' := by
  funext tokens
  cases houtcome : (p tokens).outcome with
  | matched a rest =>
      have hbind := bind_eq_of_matched (f := f) houtcome
      rw [bind_eq_of_matched houtcome]
      cases houtcome' : (f a rest).outcome with
      | matched b rest' =>
          have h : ((p >>= f) tokens).outcome = .matched b rest' := by rw [hbind]; exact houtcome'
          rw [bind_eq_of_matched h, bind_eq_of_matched houtcome', hbind, after_after]
      | noMatch stuck =>
          have h : ((p >>= f) tokens).outcome = .noMatch stuck := by rw [hbind]; exact houtcome'
          rw [bind_eq_of_noMatch h, bind_eq_of_noMatch houtcome', hbind]
          rfl
      | tooDeep =>
          have h : ((p >>= f) tokens).outcome = .tooDeep := by rw [hbind]; exact houtcome'
          rw [bind_eq_of_tooDeep h, bind_eq_of_tooDeep houtcome', hbind]
          rfl
  | noMatch stuck =>
      have hbind := bind_eq_of_noMatch (f := f) houtcome
      have h : ((p >>= f) tokens).outcome = .noMatch stuck := by rw [hbind]
      rw [bind_eq_of_noMatch h, hbind, bind_eq_of_noMatch houtcome]
  | tooDeep =>
      have hbind := bind_eq_of_tooDeep (f := f) houtcome
      have h : ((p >>= f) tokens).outcome = .tooDeep := by rw [hbind]
      rw [bind_eq_of_tooDeep h, hbind, bind_eq_of_tooDeep houtcome]

/-! ## Choice -/

@[simp] theorem refuses_fail : (fail : Production α).Refuses tokens :=
  ⟨tokens, rfl⟩

@[simp] theorem not_matches_fail {a : α} : ¬ (fail : Production α).Matches tokens a rest := by
  intro h
  cases h

@[simp] theorem not_overflows_fail : ¬ (fail : Production α).Overflows tokens := by
  intro h
  cases h

theorem orElse_eq_of_noMatch {stuck : List Token} (h : (p tokens).outcome = .noMatch stuck) :
    orElse p q tokens = (q tokens).after (p tokens) := by
  simp only [orElse, h]

theorem orElse_eq_of_not_refuses (h : ¬ p.Refuses tokens) : orElse p q tokens = p tokens := by
  unfold orElse
  cases houtcome : (p tokens).outcome with
  | matched a rest => simp only [houtcome]
  | noMatch stuck => exact absurd ⟨stuck, houtcome⟩ h
  | tooDeep => simp only [houtcome]

theorem outcome_orElse (p q : Production α) (tokens : List Token) :
    (orElse p q tokens).outcome =
      match (p tokens).outcome with
      | .matched a rest => .matched a rest
      | .noMatch _ => (q tokens).outcome
      | .tooDeep => .tooDeep := by
  unfold orElse
  cases h : (p tokens).outcome <;> simp [h, Reading.after]

@[simp] theorem matches_orElse_iff {a : α} :
    (orElse p q).Matches tokens a rest ↔
      p.Matches tokens a rest ∨ p.Refuses tokens ∧ q.Matches tokens a rest := by
  unfold Matches Refuses
  rw [outcome_orElse]
  cases (p tokens).outcome <;> simp

@[simp] theorem refuses_orElse_iff :
    (orElse p q).Refuses tokens ↔ p.Refuses tokens ∧ q.Refuses tokens := by
  unfold Refuses
  rw [outcome_orElse]
  cases (p tokens).outcome <;> simp

@[simp] theorem overflows_orElse_iff :
    (orElse p q).Overflows tokens ↔
      p.Overflows tokens ∨ p.Refuses tokens ∧ q.Overflows tokens := by
  unfold Overflows Refuses
  rw [outcome_orElse]
  cases (p tokens).outcome <;> simp

@[simp] theorem firstOf_nil : firstOf ([] : List (Production α)) = fail := rfl

@[simp] theorem firstOf_cons (p : Production α) (ps : List (Production α)) :
    firstOf (p :: ps) = orElse p (firstOf ps) := rfl

theorem refuses_firstOf_iff {ps : List (Production α)} :
    (firstOf ps).Refuses tokens ↔ ∀ p ∈ ps, p.Refuses tokens := by
  induction ps with
  | nil => simp
  | cons p ps ih => simp [ih]

theorem matches_firstOf_append_iff {ps qs : List (Production α)} {a : α} :
    (firstOf (ps ++ qs)).Matches tokens a rest ↔
      (firstOf ps).Matches tokens a rest ∨
        (firstOf ps).Refuses tokens ∧ (firstOf qs).Matches tokens a rest := by
  induction ps with
  | nil => simp
  | cons p ps ih =>
      rw [List.cons_append, firstOf_cons, firstOf_cons, matches_orElse_iff, matches_orElse_iff,
        refuses_orElse_iff, ih]
      tauto

theorem Matches.exists_mem_firstOf {ps : List (Production α)} {a : α}
    (h : (firstOf ps).Matches tokens a rest) : ∃ p ∈ ps, p.Matches tokens a rest := by
  induction ps with
  | nil => exact absurd h not_matches_fail
  | cons p ps ih =>
      rw [firstOf_cons, matches_orElse_iff] at h
      rcases h with h | ⟨-, h⟩
      · exact ⟨p, List.mem_cons_self, h⟩
      · obtain ⟨q, hq, h⟩ := ih h
        exact ⟨q, List.mem_cons_of_mem _ hq, h⟩

theorem Overflows.exists_mem_firstOf {ps : List (Production α)}
    (h : (firstOf ps).Overflows tokens) : ∃ p ∈ ps, p.Overflows tokens := by
  induction ps with
  | nil => exact absurd h not_overflows_fail
  | cons p ps ih =>
      rw [firstOf_cons, overflows_orElse_iff] at h
      rcases h with h | ⟨-, h⟩
      · exact ⟨p, List.mem_cons_self, h⟩
      · obtain ⟨q, hq, h⟩ := ih h
        exact ⟨q, List.mem_cons_of_mem _ hq, h⟩

theorem Matches.firstOf {ps : List (Production α)} {a : α} (h : p.Matches tokens a rest)
    (hp : p ∈ ps) (hothers : ∀ q ∈ ps, q = p ∨ q.Refuses tokens) :
    (firstOf ps).Matches tokens a rest := by
  induction ps with
  | nil => cases hp
  | cons q ps ih =>
      obtain ⟨hq, hqs⟩ := List.forall_mem_cons.1 hothers
      rw [firstOf_cons, matches_orElse_iff]
      rcases hq with rfl | hq
      · exact .inl h
      · have hne : p ≠ q := by
          rintro rfl
          exact h.not_refuses hq
        exact .inr ⟨hq, ih ((List.mem_cons.1 hp).resolve_left hne) hqs⟩

@[simp] theorem matches_optional_iff {a : Option α} :
    (optional p).Matches tokens a rest ↔
      (∃ b, some b = a ∧ p.Matches tokens b rest) ∨
        p.Refuses tokens ∧ none = a ∧ tokens = rest := by
  simp [optional]

@[simp] theorem not_refuses_optional : ¬ (optional p).Refuses tokens := by
  simp [optional]

@[simp] theorem overflows_optional_iff : (optional p).Overflows tokens ↔ p.Overflows tokens := by
  simp [optional]

/-! ## Tokens -/

@[simp] theorem matches_token_iff {accept : Token → Bool} {t : Token} :
    (token accept).Matches tokens t rest ↔ tokens = t :: rest ∧ accept t = true := by
  cases tokens with
  | nil => simp [Matches, token]
  | cons u us =>
      by_cases h : accept u = true
      · simp only [Matches, token, h, if_true, Outcome.matched.injEq, List.cons.injEq]
        constructor
        · rintro ⟨rfl, rfl⟩
          exact ⟨⟨rfl, rfl⟩, h⟩
        · rintro ⟨⟨rfl, rfl⟩, -⟩
          exact ⟨rfl, rfl⟩
      · simp only [Matches, token, h]
        constructor
        · intro h'
          cases h'
        · rintro ⟨heq, ht⟩
          cases heq
          exact absurd ht h

@[simp] theorem refuses_token_nil {accept : Token → Bool} : (token accept).Refuses [] :=
  ⟨[], rfl⟩

@[simp] theorem refuses_token_cons_iff {accept : Token → Bool} {t : Token} :
    (token accept).Refuses (t :: rest) ↔ accept t = false := by
  cases h : accept t <;> simp [Refuses, token, h]

theorem matches_firstOf_token_iff {accepts : List (Token → Bool)} {t : Token} :
    (firstOf (accepts.map token)).Matches tokens t rest ↔
      tokens = t :: rest ∧ ∃ accept ∈ accepts, accept t = true := by
  induction accepts with
  | nil => simp
  | cons accept accepts ih =>
      rw [List.map_cons, firstOf_cons, matches_orElse_iff, ih, matches_token_iff]
      constructor
      · rintro (⟨rfl, h⟩ | ⟨-, rfl, accept', hmem, h⟩)
        · exact ⟨rfl, accept, List.mem_cons_self, h⟩
        · exact ⟨rfl, accept', List.mem_cons_of_mem _ hmem, h⟩
      · rintro ⟨rfl, accept', hmem, h⟩
        rcases List.mem_cons.1 hmem with rfl | hmem
        · exact .inl ⟨rfl, h⟩
        · by_cases haccept : accept t = true
          · exact .inl ⟨rfl, haccept⟩
          · have hrefuses : (token accept).Refuses (t :: rest) := by simpa using haccept
            exact .inr ⟨hrefuses, rfl, accept', hmem, h⟩

theorem refuses_firstOf_token_iff {accepts : List (Token → Bool)} {t : Token} :
    (firstOf (accepts.map token)).Refuses (t :: rest) ↔
      ∀ accept ∈ accepts, accept t = false := by
  induction accepts with
  | nil => simp
  | cons accept accepts ih => simp [ih]

@[simp] theorem not_overflows_token {accept : Token → Bool} :
    ¬ (token accept).Overflows tokens := by
  cases tokens with
  | nil => simp [Overflows, token]
  | cons t ts => cases h : accept t <;> simp [Overflows, token, h]

@[simp] theorem matches_insignificant_iff {blank : List Token} :
    insignificant.Matches tokens blank rest ↔
      blank = tokens.takeWhile Token.isInsignificant ∧
        rest = tokens.dropWhile Token.isInsignificant := by
  simp only [Matches, insignificant, Outcome.matched.injEq]
  constructor <;> rintro ⟨h, h'⟩ <;> exact ⟨h.symm, h'.symm⟩

@[simp] theorem not_refuses_insignificant : ¬ insignificant.Refuses tokens := by
  simp [Refuses, insignificant]

@[simp] theorem not_overflows_insignificant : ¬ insignificant.Overflows tokens := by
  simp [Overflows, insignificant]

@[simp] theorem matches_skip_iff {u : Unit} :
    skip.Matches tokens u rest ↔ rest = tokens.dropWhile Token.isInsignificant := by
  simp [skip]

@[simp] theorem not_refuses_skip : ¬ skip.Refuses tokens := by
  simp [skip]

@[simp] theorem not_overflows_skip : ¬ skip.Overflows tokens := by
  simp [skip]

def Spelled (symbol : List Char) (tokens : List Token) : Prop :=
  List.Forall₂ (fun c t => Token.isDelim c t = true) symbol tokens

theorem matches_spelled_iff {symbol : List Char} {spelling : List Token} :
    (spelled symbol).Matches tokens spelling rest ↔
      tokens = spelling ++ rest ∧ Spelled symbol spelling := by
  induction symbol generalizing tokens spelling with
  | nil =>
      simp only [spelled, matches_pure_iff, Spelled, List.forall₂_nil_left_iff]
      constructor
      · rintro ⟨rfl, rfl⟩
        exact ⟨rfl, rfl⟩
      · rintro ⟨rfl, rfl⟩
        exact ⟨rfl, rfl⟩
  | cons c cs ih =>
      simp only [spelled, matches_bind_iff, matches_token_iff, matches_pure_iff]
      constructor
      · rintro ⟨t, _, ⟨rfl, ht⟩, ts, _, h, rfl, rfl⟩
        obtain ⟨rfl, hts⟩ := ih.1 h
        exact ⟨rfl, .cons ht hts⟩
      · rintro ⟨rfl, h⟩
        obtain ⟨t, ts, ht, hts, rfl⟩ := List.forall₂_cons_left_iff.1 h
        exact ⟨t, _, ⟨rfl, ht⟩, ts, _, ih.2 ⟨rfl, hts⟩, rfl, rfl⟩

theorem Spelled.exists_mem {symbol : List Char} (h : Spelled symbol tokens) :
    ∀ t ∈ tokens, ∃ c ∈ symbol, t.isDelim c = true := by
  induction h with
  | nil => simp
  | cons hc _ ih =>
      intro t ht
      rcases List.mem_cons.1 ht with rfl | ht
      · exact ⟨_, List.mem_cons_self, hc⟩
      · obtain ⟨c, hmem, hc⟩ := ih t ht
        exact ⟨c, List.mem_cons_of_mem _ hmem, hc⟩

theorem refuses_spelled_of_head {c : Char} {cs : List Char}
    (h : ∀ t ∈ tokens.head?, t.isDelim c = false) : (spelled (c :: cs)).Refuses tokens := by
  rw [spelled, refuses_bind_iff]
  cases tokens with
  | nil => exact .inl refuses_token_nil
  | cons t ts => exact .inl (refuses_token_cons_iff.2 (h t rfl))

@[simp] theorem not_overflows_spelled {symbol : List Char} :
    ¬ (spelled symbol).Overflows tokens := by
  induction symbol generalizing tokens with
  | nil => simp [spelled]
  | cons c cs ih => simp [spelled, ih]

/-! ## Repetition -/

variable {step : Production (Option α)}

theorem iterate_eq_of_lt {a : α} (h : (step tokens).outcome = .matched (some a) rest)
    (hlt : rest.length < tokens.length) :
    iterate step tokens = ((iterate step rest).map (a :: ·)).after (step tokens) := by
  rw [iterate]
  simp [h, hlt]

theorem iterate_eq_of_not_lt {a : α} (h : (step tokens).outcome = .matched (some a) rest)
    (hlt : ¬ rest.length < tokens.length) :
    iterate step tokens = ⟨.matched [a] rest, (step tokens).unread, (step tokens).keptRaw⟩ := by
  rw [iterate]
  simp [h, hlt]

theorem iterate_eq_of_none (h : (step tokens).outcome = .matched none rest) :
    iterate step tokens = ⟨.matched [] rest, (step tokens).unread, (step tokens).keptRaw⟩ := by
  rw [iterate]
  simp [h]

theorem iterate_eq_of_noMatch {stuck : List Token} (h : (step tokens).outcome = .noMatch stuck) :
    iterate step tokens = ⟨.noMatch stuck, (step tokens).unread, (step tokens).keptRaw⟩ := by
  rw [iterate]
  simp [h]

theorem iterate_eq_of_tooDeep (h : (step tokens).outcome = .tooDeep) :
    iterate step tokens = ⟨.tooDeep, (step tokens).unread, (step tokens).keptRaw⟩ := by
  rw [iterate]
  simp [h]

theorem outcome_iterate (step : Production (Option α)) (tokens : List Token) :
    (iterate step tokens).outcome =
      match (step tokens).outcome with
      | .matched (some a) rest =>
        if rest.length < tokens.length then ((iterate step rest).map (a :: ·)).outcome
        else .matched [a] rest
      | .matched none rest => .matched [] rest
      | .noMatch stuck => .noMatch stuck
      | .tooDeep => .tooDeep := by
  rw [iterate]
  rcases (step tokens).outcome with ⟨_ | a, rest⟩ | stuck | _
  · simp
  · by_cases hlt : rest.length < tokens.length <;> simp [hlt, Reading.after]
  · simp
  · simp

theorem overflows_iterate_iff_of_lt {a : α} (h : (step tokens).outcome = .matched (some a) rest)
    (hlt : rest.length < tokens.length) :
    (iterate step).Overflows tokens ↔ (iterate step).Overflows rest := by
  unfold Overflows
  rw [iterate_eq_of_lt h hlt, Reading.after, Reading.map]
  cases (iterate step rest).outcome <;> simp

theorem matches_iterate_iff_of_lt {a : α} {middle : List Token} {as : List α}
    (h : (step tokens).outcome = .matched (some a) middle) (hlt : middle.length < tokens.length) :
    (iterate step).Matches tokens as rest ↔
      ∃ bs, a :: bs = as ∧ (iterate step).Matches middle bs rest := by
  unfold Matches
  rw [iterate_eq_of_lt h hlt, Reading.after, Reading.map]
  cases (iterate step middle).outcome <;> simp [and_left_comm]

theorem not_refuses_iterate (h : ∀ tokens, ¬ step.Refuses tokens) :
    ¬ (iterate step).Refuses tokens := by
  unfold Refuses
  induction hn : tokens.length using Nat.strongRecOn generalizing tokens with
  | ind n ih =>
      rcases houtcome : (step tokens).outcome with ⟨_ | a, rest⟩ | stuck | _
      · rw [iterate_eq_of_none houtcome]
        simp
      · by_cases hlt : rest.length < tokens.length
        · have hrest := ih rest.length (hn ▸ hlt) rfl
          rw [iterate_eq_of_lt houtcome hlt, Reading.after, Reading.map]
          cases houtcome' : (iterate step rest).outcome with
          | matched as rest' => simp
          | noMatch stuck => exact absurd ⟨stuck, houtcome'⟩ hrest
          | tooDeep => simp
        · rw [iterate_eq_of_not_lt houtcome hlt]
          simp
      · exact absurd ⟨stuck, houtcome⟩ (h tokens)
      · rw [iterate_eq_of_tooDeep houtcome]
        simp

/-- Every item that a step yields takes tokens, so its repetition never stops early. -/
def Shortens (step : Production (Option α)) : Prop :=
  ∀ tokens a rest, step.Matches tokens (some a) rest → rest.length < tokens.length

theorem Matches.iterate_nil (h : step.Matches tokens none rest) :
    (iterate step).Matches tokens [] rest := by
  unfold Matches at h ⊢
  rw [outcome_iterate, h]

theorem Shortens.outcome_iterate (hstep : Shortens step) {a : α} {middle : List Token}
    (h : step.Matches tokens (some a) middle) :
    (iterate step tokens).outcome = ((iterate step middle).map (a :: ·)).outcome := by
  have hlt := hstep tokens a middle h
  unfold Matches at h
  rw [Production.outcome_iterate, h]
  simp [hlt]

theorem Shortens.iterate_cons (hstep : Shortens step) {a : α} {as : List α}
    {middle : List Token} (h : step.Matches tokens (some a) middle)
    (has : (iterate step).Matches middle as rest) :
    (iterate step).Matches tokens (a :: as) rest := by
  unfold Matches at has ⊢
  rw [hstep.outcome_iterate h]
  simp [Reading.map, has]

/-- A repetition ends where the step yields no item, and else goes on behind the item. -/
theorem Shortens.cases_iterate (hstep : Shortens step) {as : List α}
    (h : (iterate step).Matches tokens as rest) :
    as = [] ∧ step.Matches tokens none rest ∨
      ∃ a bs middle, as = a :: bs ∧ step.Matches tokens (some a) middle ∧
        (iterate step).Matches middle bs rest := by
  unfold Matches at h ⊢
  rcases hs : (step tokens).outcome with ⟨_ | a, middle⟩ | stuck | _
  · rw [Production.outcome_iterate, hs] at h
    simp only [Outcome.matched.injEq] at h
    obtain ⟨rfl, rfl⟩ := h
    exact .inl ⟨rfl, rfl⟩
  · rw [hstep.outcome_iterate hs] at h
    cases hi : (iterate step middle).outcome with
    | matched bs rest' =>
        simp only [Reading.map, hi, Outcome.matched.injEq] at h
        obtain ⟨rfl, rfl⟩ := h
        exact .inr ⟨a, bs, middle, rfl, rfl, hi⟩
    | noMatch stuck => simp [Reading.map, hi] at h
    | tooDeep => simp [Reading.map, hi] at h
  · rw [Production.outcome_iterate, hs] at h
    cases h
  · rw [Production.outcome_iterate, hs] at h
    cases h

/-- The step reads the items one after another. -/
inductive Rounds (step : Production (Option α)) : List Token → List α → List Token → Prop
  | nil {tokens : List Token} : Rounds step tokens [] tokens
  | cons {tokens middle rest : List Token} {a : α} {as : List α}
      (head : step.Matches tokens (some a) middle) (tail : Rounds step middle as rest) :
      Rounds step tokens (a :: as) rest

theorem Shortens.rounds (hstep : Shortens step) {as : List α}
    (h : (iterate step).Matches tokens as rest) :
    ∃ middle, Rounds step tokens as middle ∧ step.Matches middle none rest := by
  induction as generalizing tokens with
  | nil =>
      rcases hstep.cases_iterate h with ⟨-, hstop⟩ | ⟨_, _, _, heq, -⟩
      · exact ⟨tokens, .nil, hstop⟩
      · cases heq
  | cons a as ih =>
      rcases hstep.cases_iterate h with ⟨heq, -⟩ | ⟨_, _, _, heq, ha, has⟩
      · cases heq
      · cases heq
        obtain ⟨middle, hrounds, hstop⟩ := ih has
        exact ⟨middle, .cons ha hrounds, hstop⟩

def Consumes (p : Production α) : Prop :=
  ∀ tokens a rest, p.Matches tokens a rest → rest.length < tokens.length

theorem Consumes.shortens_optional (hp : Consumes p) : Shortens (optional p) := by
  intro tokens a rest h
  simp only [matches_optional_iff, Option.some.injEq] at h
  rcases h with ⟨_, rfl, h⟩ | ⟨-, h, -⟩
  · exact hp _ _ _ h
  · cases h

@[simp] theorem not_refuses_many : ¬ (many p).Refuses tokens :=
  not_refuses_iterate fun _ => not_refuses_optional

theorem Refuses.many (h : p.Refuses tokens) : (many p).Matches tokens [] tokens :=
  Matches.iterate_nil (by simp [h])

theorem Consumes.many_cons (hp : Consumes p) {a : α} {as : List α} {middle : List Token}
    (h : p.Matches tokens a middle) (has : (many p).Matches middle as rest) :
    (many p).Matches tokens (a :: as) rest :=
  hp.shortens_optional.iterate_cons (by simp [h]) has

theorem Consumes.cases_many (hp : Consumes p) {as : List α}
    (h : (many p).Matches tokens as rest) :
    as = [] ∧ tokens = rest ∧ p.Refuses tokens ∨
      ∃ a bs middle, as = a :: bs ∧ p.Matches tokens a middle ∧
        (many p).Matches middle bs rest := by
  rcases hp.shortens_optional.cases_iterate h with ⟨rfl, hstop⟩ | ⟨a, bs, middle, rfl, ha, hbs⟩
  · simp only [matches_optional_iff] at hstop
    rcases hstop with ⟨_, h, -⟩ | ⟨hrefuses, -, rfl⟩
    · cases h
    · exact .inl ⟨rfl, rfl, hrefuses⟩
  · simp only [matches_optional_iff, Option.some.injEq] at ha
    rcases ha with ⟨_, rfl, ha⟩ | ⟨-, h, -⟩
    · exact .inr ⟨_, bs, middle, rfl, ha, hbs⟩
    · cases h

end Production

end CssSelectors
