import CssSelectors.Proofs.WellFormed

/-!
# Reading names

The productions for names and type selectors read exactly the well-formed ones that
the tokens spell. Only a name without a namespace and a lone asterisk depend on what
follows, since a bar behind them makes them a namespace.
-/

namespace CssSelectors

namespace Grammar

open Production

variable {tokens rest : List Token}

/-! ## Names -/

def nsValue : Production Token :=
  firstOf ([Token.isIdent, Token.isDelim '*'].map token)

theorem nsPrefix_eq :
    nsPrefix = do
      let value ← optional nsValue
      let _ ← token (Token.isDelim '|')
      return ⟨value⟩ := rfl

theorem matches_nsValue_iff {t : Token} :
    nsValue.Matches tokens t rest ↔
      tokens = t :: rest ∧ (t.isIdent = true ∨ t.isDelim '*' = true) := by
  rw [nsValue, matches_firstOf_token_iff]
  simp

theorem refuses_nsValue_cons_iff {t : Token} :
    nsValue.Refuses (t :: rest) ↔ t.isIdent = false ∧ t.isDelim '*' = false := by
  rw [nsValue, refuses_firstOf_token_iff]
  simp

theorem matches_nsPrefix_iff {ns : NsPrefix} :
    nsPrefix.Matches tokens ns rest ↔ ns.WellFormed ∧ Spells ns.pieces tokens rest := by
  obtain ⟨value⟩ := ns
  simp only [nsPrefix_eq, matches_bind_iff, matches_optional_iff, matches_nsValue_iff,
    matches_token_iff, matches_pure_iff, NsPrefix.mk.injEq, NsPrefix.WellFormed,
    NsPrefix.pieces, Option.mem_def]
  constructor
  · rintro ⟨_, _, ⟨t, rfl, rfl, ht⟩ | ⟨-, rfl, rfl⟩, bar, _, ⟨rfl, hbar⟩, rfl, rfl⟩
    · obtain ⟨span, rfl⟩ := Token.isDelim_iff.1 hbar
      exact ⟨by simpa using ht, by simp⟩
    · obtain ⟨span, rfl⟩ := Token.isDelim_iff.1 hbar
      exact ⟨by simp, by simp⟩
  · rintro ⟨hvalue, hspells⟩
    cases value with
    | some t =>
        simp only [Option.toList_some, List.map_cons, List.map_nil, List.cons_append,
          List.nil_append, spells_stored_iff, spells_mark_iff, spells_nil_iff] at hspells
        obtain ⟨_, rfl, span, _, rfl, rfl⟩ := hspells
        exact ⟨_, _, .inl ⟨t, rfl, rfl, hvalue t rfl⟩, _, _, ⟨rfl, by simp [Token.isDelim]⟩,
          rfl, rfl⟩
    | none =>
        simp only [Option.toList_none, List.map_nil, List.nil_append, spells_mark_iff,
          spells_nil_iff] at hspells
        obtain ⟨span, _, rfl, rfl⟩ := hspells
        refine ⟨none, _, .inr ⟨?_, rfl, rfl⟩, _, _, ⟨rfl, by simp [Token.isDelim]⟩, rfl, rfl⟩
        rw [refuses_nsValue_cons_iff]
        simp [Token.isIdent, Token.isDelim]

theorem matches_nsPrefix_cons {t bar : Token} (ht : t.isIdent = true ∨ t.isDelim '*' = true)
    (hbar : bar.isDelim '|' = true) : nsPrefix.Matches (t :: bar :: rest) ⟨some t⟩ rest := by
  obtain ⟨span, rfl⟩ := Token.isDelim_iff.1 hbar
  rw [matches_nsPrefix_iff]
  exact ⟨by simpa [NsPrefix.WellFormed] using ht, by simp [NsPrefix.pieces]⟩

theorem refuses_nsPrefix_cons_iff {t : Token} (ht : t.isIdent = true ∨ t.isDelim '*' = true) :
    nsPrefix.Refuses (t :: rest) ↔ ∀ u ∈ rest.head?, u.isDelim '|' = false := by
  have hvalue : (optional nsValue).Matches (t :: rest) (some t) rest := by
    rw [matches_optional_iff]
    exact .inl ⟨t, rfl, matches_nsValue_iff.2 ⟨rfl, ht⟩⟩
  rw [nsPrefix_eq, hvalue.refuses_bind_iff, refuses_bind_iff]
  cases rest with
  | nil => simp
  | cons u us => simp

def barThen (accept : Token → Bool) : List Token → Bool
  | bar :: t :: _ => bar.isDelim '|' && accept t
  | _ => false

theorem barThen_cons_of_not_bar {accept : Token → Bool} {t : Token}
    (h : t.isDelim '|' = false) : barThen accept (t :: rest) = false := by
  cases rest with
  | nil => rfl
  | cons u us => simp [barThen, h]

/-- A namespace that begins with a name or an asterisk, and an accepted token behind it. -/
theorem refuses_nsPrefix_then_iff {β : Type} {accept : Token → Bool} {f : NsPrefix → Token → β}
    {t : Token} (ht : t.isIdent = true ∨ t.isDelim '*' = true) :
    (nsPrefix >>= fun ns => token accept >>= fun u => pure (f ns u)).Refuses (t :: rest) ↔
      barThen accept rest = false := by
  match rest with
  | [] =>
      have hns : nsPrefix.Refuses [t] := (refuses_nsPrefix_cons_iff ht).2 (by simp)
      simp [hns, barThen]
  | bar :: us =>
      by_cases hbar : bar.isDelim '|' = true
      · rw [(matches_nsPrefix_cons ht hbar).refuses_bind_iff]
        cases us with
        | nil => simp [barThen]
        | cons u us => simp [barThen, hbar]
      · have hns : nsPrefix.Refuses (t :: bar :: us) :=
          (refuses_nsPrefix_cons_iff ht).2 (by simpa using hbar)
        cases us <;> simp [hns, barThen, hbar]

def prefixedName : Production QualifiedName := do
  let ns ← nsPrefix
  let name ← token Token.isIdent
  return ⟨some ns, name⟩

def plainName : Production QualifiedName := do
  let name ← token Token.isIdent
  return ⟨none, name⟩

theorem qualifiedName_eq : qualifiedName = firstOf [prefixedName, plainName] := rfl

theorem matches_prefixedName_iff {name : QualifiedName} :
    prefixedName.Matches tokens name rest ↔
      name.ns ≠ none ∧ name.WellFormed ∧ Spells name.pieces tokens rest := by
  obtain ⟨ns, name⟩ := name
  simp only [prefixedName, matches_bind_iff, matches_nsPrefix_iff, matches_token_iff,
    matches_pure_iff, QualifiedName.mk.injEq]
  constructor
  · rintro ⟨ns, _, ⟨hns, hspells⟩, _, _, ⟨rfl, hname⟩, ⟨rfl, rfl⟩, rfl⟩
    refine ⟨by simp, ⟨by simpa using hns, hname⟩, ?_⟩
    simpa [QualifiedName.pieces] using hspells
  · rintro ⟨hsome, ⟨hns, hname⟩, hspells⟩
    obtain ⟨ns, rfl⟩ := Option.ne_none_iff_exists'.1 hsome
    simp only [QualifiedName.pieces, Option.toList_some, List.flatMap_cons, List.flatMap_nil,
      List.append_nil, spells_append_iff, spells_stored_iff, spells_nil_iff] at hspells
    obtain ⟨_, hspells, _, rfl, rfl⟩ := hspells
    exact ⟨ns, _, ⟨hns ns rfl, hspells⟩, name, _, ⟨rfl, hname⟩, ⟨rfl, rfl⟩, rfl⟩

theorem matches_plainName_iff {name : QualifiedName} :
    plainName.Matches tokens name rest ↔
      name.ns = none ∧ name.name.isIdent = true ∧ tokens = name.name :: rest := by
  obtain ⟨ns, name⟩ := name
  simp only [plainName, matches_bind_iff, matches_token_iff, matches_pure_iff,
    QualifiedName.mk.injEq]
  constructor
  · rintro ⟨_, _, ⟨rfl, hname⟩, ⟨rfl, rfl⟩, rfl⟩
    exact ⟨rfl, hname, rfl⟩
  · rintro ⟨rfl, hname, rfl⟩
    exact ⟨_, _, ⟨rfl, hname⟩, ⟨rfl, rfl⟩, rfl⟩

theorem matches_qualifiedName_iff {name : QualifiedName} :
    qualifiedName.Matches tokens name rest ↔
      name.WellFormed ∧ Spells name.pieces tokens rest ∧
        (name.ns = none → barThen Token.isIdent rest = false) := by
  simp only [qualifiedName_eq, firstOf_cons, firstOf_nil, matches_orElse_iff, not_matches_fail,
    and_false, or_false, matches_prefixedName_iff, matches_plainName_iff]
  constructor
  · rintro (⟨hsome, hname, hspells⟩ | ⟨hrefuses, hnone, hname, rfl⟩)
    · exact ⟨hname, hspells, fun h => absurd h hsome⟩
    · refine ⟨⟨by simp [hnone], hname⟩, by simp [QualifiedName.pieces, hnone], fun _ => ?_⟩
      exact (refuses_nsPrefix_then_iff (.inl hname)).1 hrefuses
  · rintro ⟨hname, hspells, hrest⟩
    by_cases hns : name.ns = none
    · right
      have htokens : tokens = name.name :: rest := by
        simpa [QualifiedName.pieces, hns] using hspells
      subst htokens
      exact ⟨(refuses_nsPrefix_then_iff (.inl hname.2)).2 (hrest hns), hns, hname.2, rfl⟩
    · exact .inl ⟨hns, hname, hspells⟩

/-- A token that may begin a name or an asterisk. -/
def beginsName (t : Token) : Bool :=
  t.isIdent || t.isDelim '*' || t.isDelim '|'

theorem beginsName_of_spells_nsPrefix {ns : NsPrefix} (hns : ns.WellFormed)
    (h : Spells ns.pieces tokens rest) : ∃ t ts, tokens = t :: ts ∧ beginsName t = true := by
  obtain ⟨_ | t⟩ := ns
  · obtain ⟨span, _, rfl, -⟩ := h
    exact ⟨_, _, rfl, by simp [beginsName, Token.isDelim]⟩
  · obtain ⟨_, rfl, -⟩ := h
    have ht := hns t rfl
    exact ⟨t, _, rfl, by rcases ht with ht | ht <;> simp [beginsName, ht]⟩

theorem beginsName_of_spells_qualifiedName {name : QualifiedName} (hname : name.WellFormed)
    (h : Spells name.pieces tokens rest) : ∃ t ts, tokens = t :: ts ∧ beginsName t = true := by
  obtain ⟨_ | ns, name⟩ := name
  · obtain ⟨_, rfl, -⟩ := h
    exact ⟨name, _, rfl, by simp [beginsName, hname.2]⟩
  · simp only [QualifiedName.pieces, Option.toList_some, List.flatMap_cons, List.flatMap_nil,
      List.append_nil, spells_append_iff] at h
    obtain ⟨_, h, -⟩ := h
    exact beginsName_of_spells_nsPrefix (hname.1 ns rfl) h

/-- A token that begins a name is neither blank nor of any class but those it is defined by. -/
theorem beginsName_iff {t : Token} :
    beginsName t = true ↔
      (∃ value span, t = .atom (.ident value) span) ∨ (∃ span, t = .atom (.delim '*') span) ∨
        ∃ span, t = .atom (.delim '|') span := by
  simp only [beginsName, Bool.or_eq_true, Token.isIdent_iff, Token.isDelim_iff, or_assoc]

theorem solid_of_beginsName {t : Token} (h : beginsName t = true) : Solid (t :: rest) := by
  rw [solid_cons_iff]
  rcases beginsName_iff.1 h with ⟨_, _, rfl⟩ | ⟨_, rfl⟩ | ⟨_, rfl⟩ <;> rfl

@[simp] theorem not_overflows_nsPrefix : ¬ nsPrefix.Overflows tokens := by
  simp [nsPrefix]

@[simp] theorem not_overflows_qualifiedName : ¬ qualifiedName.Overflows tokens := by
  simp [qualifiedName]

theorem refuses_qualifiedName_cons {t : Token} (h : beginsName t = false) :
    qualifiedName.Refuses (t :: rest) := by
  apply refuses_of_forall_not_matches not_overflows_qualifiedName
  intro name rest' hmatches
  obtain ⟨hname, hspells, -⟩ := matches_qualifiedName_iff.1 hmatches
  obtain ⟨u, us, heq, hu⟩ := beginsName_of_spells_qualifiedName hname hspells
  cases heq
  rw [h] at hu
  cases hu

/-! ## Type selectors -/

def universal : Production TypeSelector := do
  let ns ← optional nsPrefix
  let asterisk ← token (Token.isDelim '*')
  return .universal ns asterisk

theorem standardType_eq : standardType = firstOf [universal, .name <$> qualifiedName] := rfl

theorem matches_universal_iff {selector : TypeSelector} :
    universal.Matches tokens selector rest ↔
      ∃ ns asterisk, selector = .universal ns asterisk ∧ (∀ p ∈ ns, p.WellFormed) ∧
        asterisk.isDelim '*' = true ∧ Spells selector.pieces tokens rest ∧
          (ns = none → ∀ u ∈ rest.head?, u.isDelim '|' = false) := by
  simp only [universal, matches_bind_iff, matches_optional_iff, matches_nsPrefix_iff,
    matches_token_iff, matches_pure_iff]
  constructor
  · rintro ⟨_, _, ⟨ns, rfl, hns, hspells⟩ | ⟨hrefuses, rfl, rfl⟩, asterisk, _,
      ⟨rfl, hasterisk⟩, rfl, rfl⟩
    · refine ⟨some ns, asterisk, rfl, by simpa using hns, hasterisk, ?_, by simp⟩
      simpa [TypeSelector.pieces] using hspells
    · -- a bar behind the asterisk would have made a namespace of it
      have hbar := (refuses_nsPrefix_cons_iff (.inr hasterisk)).1 hrefuses
      exact ⟨none, asterisk, rfl, by simp, hasterisk, by simp [TypeSelector.pieces],
        fun _ => hbar⟩
  · rintro ⟨ns, asterisk, rfl, hns, hasterisk, hspells, hrest⟩
    cases ns with
    | some ns =>
        simp only [TypeSelector.pieces, Option.toList_some, List.flatMap_cons, List.flatMap_nil,
          List.append_nil, spells_append_iff, spells_stored_iff, spells_nil_iff] at hspells
        obtain ⟨_, hspells, _, rfl, rfl⟩ := hspells
        exact ⟨_, _, .inl ⟨ns, rfl, hns ns rfl, hspells⟩, asterisk, _, ⟨rfl, hasterisk⟩, rfl, rfl⟩
    | none =>
        have htokens : tokens = asterisk :: rest := by
          simpa [TypeSelector.pieces] using hspells
        subst htokens
        exact ⟨none, _, .inr ⟨(refuses_nsPrefix_cons_iff (.inr hasterisk)).2 (hrest rfl), rfl, rfl⟩,
          asterisk, _, ⟨rfl, hasterisk⟩, rfl, rfl⟩

theorem refuses_universal_iff_of_plain {name : Token} (hname : name.isIdent = true) :
    universal.Refuses (name :: rest) ↔ barThen (Token.isDelim '*') rest = false := by
  have hasterisk : name.isDelim '*' = false := by
    obtain ⟨_, _, rfl⟩ := Token.isIdent_iff.1 hname
    rfl
  match rest with
  | bar :: us =>
      by_cases hbar : bar.isDelim '|' = true
      · have hns : (optional nsPrefix).Matches (name :: bar :: us) (some ⟨some name⟩) us := by
          rw [matches_optional_iff]
          exact .inl ⟨_, rfl, matches_nsPrefix_cons (.inl hname) hbar⟩
        rw [universal, hns.refuses_bind_iff]
        cases us with
        | nil => simp [barThen]
        | cons u us => simp [barThen, hbar]
      · have hns : (optional nsPrefix).Matches (name :: bar :: us) none (name :: bar :: us) := by
          rw [matches_optional_iff]
          exact .inr ⟨(refuses_nsPrefix_cons_iff (.inl hname)).2 (by simpa using hbar), rfl, rfl⟩
        rw [universal, hns.refuses_bind_iff]
        cases us <;> simp [hasterisk, barThen, hbar]
  | [] =>
      have hns : (optional nsPrefix).Matches [name] none [name] := by
        rw [matches_optional_iff]
        exact .inr ⟨(refuses_nsPrefix_cons_iff (.inl hname)).2 (by simp), rfl, rfl⟩
      rw [universal, hns.refuses_bind_iff]
      simp [hasterisk, barThen]

theorem refuses_universal_of_prefixed {name : QualifiedName} (hns : name.ns ≠ none)
    (hname : name.WellFormed) (h : Spells name.pieces tokens rest) :
    universal.Refuses tokens := by
  obtain ⟨_ | ns, name⟩ := name
  · exact absurd rfl hns
  · simp only [QualifiedName.pieces, Option.toList_some, List.flatMap_cons, List.flatMap_nil,
      List.append_nil, spells_append_iff, spells_stored_iff, spells_nil_iff] at h
    obtain ⟨middle, hspells, after, rfl, -⟩ := h
    have hmatches : (optional nsPrefix).Matches tokens (some ns) (name :: after) := by
      rw [matches_optional_iff]
      exact .inl ⟨ns, rfl, matches_nsPrefix_iff.2 ⟨hname.1 ns rfl, hspells⟩⟩
    obtain ⟨_, _, rfl⟩ := Token.isIdent_iff.1 hname.2
    rw [universal, hmatches.refuses_bind_iff]
    simp [Token.isDelim]

/-- What may follow a type selector: behind a lone asterisk no bar at all, and behind a
lone name none that makes it the namespace of another name or an asterisk. -/
def TypeEnds : TypeSelector → List Token → Prop
  | .universal none _, rest => ∀ u ∈ rest.head?, u.isDelim '|' = false
  | .name ⟨none, _⟩, rest =>
    barThen Token.isIdent rest = false ∧ barThen (Token.isDelim '*') rest = false
  | _, _ => True

def IsStandardType : TypeSelector → Prop
  | .name qualified => qualified.WellFormed
  | .universal ns asterisk => (∀ p ∈ ns, p.WellFormed) ∧ asterisk.isDelim '*' = true
  | _ => False

theorem matches_standardType_iff {selector : TypeSelector} :
    standardType.Matches tokens selector rest ↔
      IsStandardType selector ∧ Spells selector.pieces tokens rest ∧ TypeEnds selector rest := by
  simp only [standardType_eq, firstOf_cons, firstOf_nil, matches_orElse_iff, not_matches_fail,
    and_false, or_false, matches_map_iff, matches_qualifiedName_iff, matches_universal_iff]
  constructor
  · rintro (⟨ns, asterisk, rfl, hns, hasterisk, hspells, hrest⟩ |
      ⟨hrefuses, name, rfl, hname, hspells, hrest⟩)
    · refine ⟨⟨hns, hasterisk⟩, hspells, ?_⟩
      cases ns with
      | none => exact hrest rfl
      | some ns => trivial
    · refine ⟨hname, hspells, ?_⟩
      obtain ⟨_ | ns, name⟩ := name
      · obtain ⟨_, rfl, rfl⟩ := hspells
        exact ⟨hrest rfl, (refuses_universal_iff_of_plain hname.2).1 hrefuses⟩
      · trivial
  · rintro ⟨hselector, hspells, hrest⟩
    cases selector with
    | universal ns asterisk =>
        refine .inl ⟨ns, asterisk, rfl, hselector.1, hselector.2, hspells, ?_⟩
        rintro rfl
        exact hrest
    | name qualified =>
        obtain ⟨_ | ns, name⟩ := qualified
        · obtain ⟨_, rfl, rfl⟩ := hspells
          have hrefuses := (refuses_universal_iff_of_plain hselector.2).2 hrest.2
          refine .inr ⟨hrefuses, _, rfl, hselector, ?_, fun _ => hrest.1⟩
          exact ⟨_, rfl, rfl⟩
        · refine .inr ⟨refuses_universal_of_prefixed (by simp) hselector hspells, _, rfl, hselector,
            hspells, by simp⟩
    | atKeyword t => exact absurd hselector not_false
    | xpath t => exact absurd hselector not_false

theorem beginsName_of_spells_standardType {selector : TypeSelector}
    (hselector : IsStandardType selector) (h : Spells selector.pieces tokens rest) :
    ∃ t ts, tokens = t :: ts ∧ beginsName t = true := by
  match selector with
  | .name name => exact beginsName_of_spells_qualifiedName hselector h
  | .universal none asterisk =>
      obtain ⟨_, rfl, -⟩ := h
      exact ⟨asterisk, _, rfl, by simp [beginsName, hselector.2]⟩
  | .universal (some ns) asterisk =>
      simp only [TypeSelector.pieces, Option.toList_some, List.flatMap_cons, List.flatMap_nil,
        List.append_nil, spells_append_iff] at h
      obtain ⟨_, h, -⟩ := h
      exact beginsName_of_spells_nsPrefix (hselector.1 ns rfl) h

theorem refuses_extended_of_standardType {selector : TypeSelector}
    (hselector : IsStandardType selector) (h : Spells selector.pieces tokens rest) :
    (token Token.isAtKeyword).Refuses tokens ∧ (token isStructuralFunction).Refuses tokens := by
  obtain ⟨t, ts, rfl, ht⟩ := beginsName_of_spells_standardType hselector h
  rw [refuses_token_cons_iff, refuses_token_cons_iff]
  rcases beginsName_iff.1 ht with ⟨_, _, rfl⟩ | ⟨_, rfl⟩ | ⟨_, rfl⟩ <;> exact ⟨rfl, rfl⟩

theorem matches_typeSelector_iff {dialect : Dialect} {selector : TypeSelector} :
    (typeSelector dialect).Matches tokens selector rest ↔
      selector.WellFormed dialect ∧ Spells selector.pieces tokens rest ∧
        TypeEnds selector rest := by
  cases dialect with
  | standard =>
      rw [typeSelector, matches_standardType_iff]
      cases selector <;> simp [IsStandardType, TypeSelector.WellFormed]
  | extended =>
      simp only [typeSelector, firstOf_cons, firstOf_nil, matches_orElse_iff, not_matches_fail,
        and_false, or_false, matches_map_iff, matches_token_iff, refuses_map_iff,
        matches_standardType_iff]
      constructor
      · rintro (⟨t, rfl, rfl, ht⟩ | ⟨-, ⟨t, rfl, rfl, ht⟩ | ⟨-, hselector, hspells, hrest⟩⟩)
        · exact ⟨⟨rfl, ht⟩, ⟨_, rfl, rfl⟩, trivial⟩
        · exact ⟨⟨rfl, ht⟩, ⟨_, rfl, rfl⟩, trivial⟩
        · refine ⟨?_, hspells, hrest⟩
          cases selector <;> simp_all [IsStandardType, TypeSelector.WellFormed]
      · rintro ⟨hselector, hspells, hrest⟩
        cases selector with
        | atKeyword t =>
            obtain ⟨_, rfl, rfl⟩ := hspells
            exact .inl ⟨t, rfl, rfl, hselector.2⟩
        | xpath t =>
            obtain ⟨_, rfl, rfl⟩ := hspells
            refine .inr ⟨?_, .inl ⟨t, rfl, rfl, hselector.2⟩⟩
            rw [refuses_token_cons_iff]
            cases t with
            | function name arguments span => rfl
            | atom a span => simp [isStructuralFunction, Token.functionName?,
                TypeSelector.WellFormed] at hselector
        | name qualified =>
            have hstandard : IsStandardType (.name qualified) := hselector
            obtain ⟨hkeyword, hfunction⟩ := refuses_extended_of_standardType hstandard hspells
            exact .inr ⟨hkeyword, .inr ⟨hfunction, hselector, hspells, hrest⟩⟩
        | universal ns asterisk =>
            have hstandard : IsStandardType (.universal ns asterisk) := hselector
            obtain ⟨hkeyword, hfunction⟩ := refuses_extended_of_standardType hstandard hspells
            exact .inr ⟨hkeyword, .inr ⟨hfunction, hselector, hspells, hrest⟩⟩

/-- Tokens that may begin a type selector. A bar has to be that of a namespace. -/
def beginsType : List Token → Bool
  | [] => false
  | t :: ts =>
    t.isIdent || t.isDelim '*' || t.isAtKeyword || t.isFunction ||
      barThen (fun u => u.isIdent || u.isDelim '*') (t :: ts)

theorem beginsType_of_spells_nsPrefix {ns : NsPrefix} {t : Token} (hns : ns.WellFormed)
    (ht : t.isIdent = true ∨ t.isDelim '*' = true)
    (h : Spells (ns.pieces ++ [.stored t]) tokens rest) : beginsType tokens = true := by
  obtain ⟨_ | value⟩ := ns
  · obtain ⟨span, _, rfl, _, rfl, rfl⟩ := h
    have hbar : (Token.atom (.delim '|') span).isDelim '|' = true := rfl
    rcases ht with ht | ht <;> simp [beginsType, barThen, ht, hbar]
  · obtain ⟨_, rfl, -⟩ := h
    rcases hns value rfl with hvalue | hvalue <;> simp [beginsType, hvalue]

theorem beginsType_of_spells {dialect : Dialect} {selector : TypeSelector}
    (hselector : selector.WellFormed dialect) (h : Spells selector.pieces tokens rest) :
    beginsType tokens = true := by
  match selector with
  | .name ⟨none, t⟩ =>
      obtain ⟨_, rfl, -⟩ := h
      simp [beginsType, hselector.2]
  | .name ⟨some ns, t⟩ =>
      apply beginsType_of_spells_nsPrefix (hselector.1 ns rfl) (.inl hselector.2)
      simpa [TypeSelector.pieces, QualifiedName.pieces] using h
  | .universal none t =>
      obtain ⟨_, rfl, -⟩ := h
      simp [beginsType, hselector.2]
  | .universal (some ns) t =>
      apply beginsType_of_spells_nsPrefix (hselector.1 ns rfl) (.inr hselector.2)
      simpa [TypeSelector.pieces] using h
  | .atKeyword t =>
      obtain ⟨_, rfl, -⟩ := h
      simp [beginsType, hselector.2]
  | .xpath t =>
      obtain ⟨_, rfl, -⟩ := h
      cases t with
      | function name arguments span => rfl
      | atom a span => simp [isStructuralFunction, Token.functionName?,
          TypeSelector.WellFormed] at hselector

theorem not_overflows_typeSelector {dialect : Dialect} :
    ¬ (typeSelector dialect).Overflows tokens := by
  cases dialect <;> simp [typeSelector, standardType]

theorem refuses_typeSelector {dialect : Dialect} (h : beginsType tokens = false) :
    (typeSelector dialect).Refuses tokens := by
  apply refuses_of_forall_not_matches not_overflows_typeSelector
  · intro selector rest hmatches
    obtain ⟨hselector, hspells, -⟩ := matches_typeSelector_iff.1 hmatches
    rw [beginsType_of_spells hselector hspells] at h
    cases h

theorem typeEnds_of_head (selector : TypeSelector)
    (h : ∀ t ∈ rest.head?, t.isDelim '|' = false) : TypeEnds selector rest := by
  have hbar (accept : Token → Bool) : barThen accept rest = false := by
    cases rest with
    | nil => rfl
    | cons t ts => exact barThen_cons_of_not_bar (h t rfl)
  match selector with
  | .universal none _ => exact h
  | .universal (some _) _ => trivial
  | .name ⟨none, _⟩ => exact ⟨hbar _, hbar _⟩
  | .name ⟨some _, _⟩ => trivial
  | .atKeyword _ => trivial
  | .xpath _ => trivial

end Grammar

end CssSelectors
