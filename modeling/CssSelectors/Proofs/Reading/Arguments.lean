import CssSelectors.Proofs.Reading.List

/-!
# Reading arguments

What the arguments of a function are read as is settled by the arguments alone: as
An+B if they are An+B, else as a selector list if they are one, else as they stand.
-/

namespace CssSelectors

namespace Grammar

open Production

variable {inner : Grammar} {name : String} {ts rest rest' : List Token} {arguments : Arguments}

/-- What nonempty arguments say, given the grammar one level deeper. -/
inductive Says (inner : Grammar) (ts : List Token) : Arguments → Prop
  | anPlusB {value : AnPlusB} {leftover : List Token} (h : anPlusB.Matches ts value leftover) :
      Says inner ts (.anPlusB value)
  | selectors {list : List Selector} {leftover : List Token}
      (hno : ∀ value leftover, ¬ anPlusB.Matches ts value leftover)
      (h : inner.wholeList.Matches ts list leftover) (hend : Token.atEnd leftover = true) :
      Says inner ts (.selectors list)
  | raw (hno : ∀ value leftover, ¬ anPlusB.Matches ts value leftover)
      (hdeep : ¬ inner.wholeList.Overflows ts)
      (h : ∀ list leftover, inner.wholeList.Matches ts list leftover →
        Token.atEnd leftover = false) :
      Says inner ts (.raw ts)

theorem Says.unique {arguments' : Arguments} (h : Says inner ts arguments)
    (h' : Says inner ts arguments') : arguments = arguments' := by
  cases h with
  | anPlusB h =>
      cases h' with
      | anPlusB h' => rw [(h.unique h').1]
      | selectors hno _ _ => exact absurd h (hno _ _)
      | raw hno _ _ => exact absurd h (hno _ _)
  | selectors hno h hend =>
      cases h' with
      | anPlusB h' => exact absurd h' (hno _ _)
      | selectors _ h' _ => rw [(h.unique h').1]
      | raw _ _ h' => simp [h' _ _ h] at hend
  | raw hno hdeep h =>
      cases h' with
      | anPlusB h' => exact absurd h' (hno _ _)
      | selectors _ h' hend => simp [h _ _ h'] at hend
      | raw _ _ _ => rfl

theorem Says.not_overflows (h : Says inner ts arguments)
    (hno : ∀ value leftover, ¬ Grammar.anPlusB.Matches ts value leftover) :
    ¬ inner.wholeList.Overflows ts := by
  cases h with
  | anPlusB h => exact absurd h (hno _ _)
  | selectors _ h _ => exact h.not_overflows
  | raw _ hdeep _ => exact hdeep

theorem outcome_readNested (hno : ∀ value leftover, ¬ anPlusB.Matches ts value leftover) :
    (readNested inner name ts rest).outcome =
      match (wholeList inner ts).outcome with
      | .matched list leftover =>
        if Token.atEnd leftover then .matched (.selectors list) rest else .matched (.raw ts) rest
      | .noMatch _ => .matched (.raw ts) rest
      | .tooDeep => .tooDeep := by
  unfold readNested
  rcases hvalue : (anPlusB ts).outcome with ⟨value, leftover⟩ | stuck | _
  · exact absurd hvalue (hno value leftover)
  all_goals
    cases hlist : (wholeList inner ts).outcome with
    | matched list leftover =>
        simp only [hlist]
        split <;> rfl
    | noMatch stuck => simp only [hlist]
    | tooDeep => simp only [hlist]

/-- Nonempty arguments are read without regard to what follows the function, or are nested
too deeply. -/
theorem readNested_cases (inner : Grammar) (name : String) (ts : List Token) :
    (∃ arguments, Says inner ts arguments ∧
      ∀ rest, (readNested inner name ts).Matches rest arguments rest) ∨
    ((∀ value leftover, ¬ anPlusB.Matches ts value leftover) ∧ inner.wholeList.Overflows ts) ∧
      ∀ rest, (readNested inner name ts).Overflows rest := by
  by_cases hvalue : ∃ value leftover, anPlusB.Matches ts value leftover
  · obtain ⟨value, leftover, h⟩ := hvalue
    refine .inl ⟨.anPlusB value, .anPlusB h, fun rest => ?_⟩
    unfold Matches at h ⊢
    simp only [readNested, h]
  · have hno : ∀ value leftover, ¬ anPlusB.Matches ts value leftover := by simpa using hvalue
    unfold Matches Overflows
    simp only [outcome_readNested hno]
    cases hlist : (wholeList inner ts).outcome with
    | matched list leftover =>
        left
        by_cases hend : Token.atEnd leftover = true
        · exact ⟨.selectors list, .selectors hno hlist hend, by simp [hend]⟩
        · refine ⟨.raw ts, .raw hno (Matches.not_overflows hlist) ?_, by simp [hend]⟩
          intro list' leftover' h'
          obtain ⟨-, rfl⟩ := Matches.unique hlist h'
          simpa using hend
    | noMatch stuck =>
        left
        refine ⟨.raw ts, .raw hno ?_ ?_, fun rest => rfl⟩
        · simp [Overflows, hlist]
        · intro list' leftover' h'
          exact absurd ⟨stuck, hlist⟩ h'.not_refuses
    | tooDeep => exact .inr ⟨⟨hno, rfl⟩, fun rest => rfl⟩

theorem yields_readNested_iff :
    (∀ rest, (readNested inner name ts).Matches rest arguments rest) ↔ Says inner ts arguments := by
  rcases readNested_cases inner name ts with ⟨arguments', hsays, hmatches⟩ | ⟨⟨hno, hover⟩, hdeep⟩
  · constructor
    · intro h
      rw [((h []).unique (hmatches [])).1]
      exact hsays
    · intro h
      rw [h.unique hsays]
      exact hmatches
  · constructor
    · intro h
      exact absurd (hdeep []) (h []).not_overflows
    · intro h
      exact absurd hover (h.not_overflows hno)

/-! ## Levels -/

variable {dialect : Dialect} {levels : Nat} {function : Token}

/-- The tokens between the parentheses, without blank text at either end. -/
def argumentTokens (function : Token) : List Token :=
  Token.trim (function.arguments?.getD [])

theorem readArguments_of_nil (h : argumentTokens function = []) :
    readArguments dialect levels function = pure .empty := by
  unfold readArguments
  rw [show Token.trim _ = [] from h]

theorem readArguments_zero (h : argumentTokens function ≠ []) :
    readArguments dialect 0 function = fun _ => ⟨.tooDeep, none, []⟩ := by
  obtain ⟨t, ts, hts⟩ := List.exists_cons_of_ne_nil h
  unfold readArguments
  rw [show Token.trim _ = t :: ts from hts]

theorem readArguments_succ (h : argumentTokens function ≠ []) :
    readArguments dialect (levels + 1) function =
      readNested (ofLevels dialect levels) (function.functionName?.getD "")
        (argumentTokens function) := by
  obtain ⟨t, ts, hts⟩ := List.exists_cons_of_ne_nil h
  rw [hts, readArguments, show Token.trim _ = t :: ts from hts]
  rfl

theorem sealed_ofLevels (dialect : Dialect) (levels : Nat) : (ofLevels dialect levels).Sealed := by
  intro function
  unfold ofLevels Yields
  by_cases hts : argumentTokens function = []
  · simp only [readArguments_of_nil hts]
    exact .inl ⟨.empty, fun rest => matches_pure_iff.2 ⟨rfl, rfl⟩⟩
  · cases levels with
    | zero =>
        simp only [readArguments_zero hts]
        exact .inr fun rest => rfl
    | succ levels =>
        simp only [readArguments_succ hts]
        rcases readNested_cases (ofLevels dialect levels) (function.functionName?.getD "")
          (argumentTokens function) with ⟨arguments, -, hmatches⟩ | ⟨-, hdeep⟩
        · exact .inl ⟨arguments, hmatches⟩
        · exact .inr hdeep

theorem unread_readNested (inner : Grammar) (name : String) (ts rest : List Token) :
    (readNested inner name ts rest).unread = none := by
  simp only [readNested]
  split
  · rfl
  · split
    · split <;> rfl
    · rfl
    · rfl

theorem unread_arguments (dialect : Dialect) (levels : Nat) (function : Token)
    (rest : List Token) : ((ofLevels dialect levels).arguments function rest).unread = none := by
  simp only [ofLevels]
  by_cases hnil : argumentTokens function = []
  · rw [readArguments_of_nil hnil]
    rfl
  · cases levels with
    | zero => rw [readArguments_zero hnil]
    | succ levels =>
        rw [readArguments_succ hnil]
        exact unread_readNested _ _ _ rest

theorem yields_empty_iff (h : argumentTokens function = []) :
    (ofLevels dialect levels).Yields function arguments ↔ arguments = .empty := by
  unfold ofLevels Yields
  simp only [readArguments_of_nil h, matches_pure_iff, and_true, forall_const]
  exact eq_comm

theorem not_yields_zero (h : argumentTokens function ≠ []) :
    ¬ (ofLevels dialect 0).Yields function arguments := by
  intro hyields
  have hmatches := hyields []
  simp only [ofLevels, readArguments_zero h] at hmatches
  cases hmatches

theorem yields_succ_iff (h : argumentTokens function ≠ []) :
    (ofLevels dialect (levels + 1)).Yields function arguments ↔
      Says (ofLevels dialect levels) (argumentTokens function) arguments := by
  rw [← yields_readNested_iff]
  unfold Yields
  rw [show (ofLevels dialect (levels + 1)).arguments function = _ from readArguments_succ h]

end Grammar

end CssSelectors
