import CssSelectors.Proofs.Acceptance
import CssSelectors.Proofs.AnPlusB

/-!
# Lists at every depth

What the arguments of a function hold is found by reading them on their own, with as many
levels less as there are functions around them. So all that is known of a list that was
read is known of the lists in its functions, at whatever depth.
-/

namespace CssSelectors

open Production Grammar

variable {options : Options} {tokens : List Token} {list : List Selector} {depth : Nat}
  {function : Token} {arguments : Arguments}

/-! ## Arguments read on their own -/

/-- What the arguments of a function hold is what their tokens say on their own. -/
structure Arguments.ReadAlone (options : Options) (tokens : List Token) (arguments : Arguments) :
    Prop where
  empty : arguments = .empty ↔ tokens = []
  anPlusB : (∃ value, arguments = .anPlusB value) ↔ tokens ≠ [] ∧ IsAnPlusB tokens
  selectors : ∀ list, arguments = .selectors list ↔
    tokens ≠ [] ∧ ¬ IsAnPlusB tokens ∧ parseTokens options tokens = .ok list
  raw : ∀ kept, arguments = .raw kept ↔
    kept = tokens ∧ tokens ≠ [] ∧ ¬ IsAnPlusB tokens ∧ ∀ list, parseTokens options tokens ≠ .ok list
  malformed : ∀ kept, arguments = .raw kept → IsMalformed options tokens

theorem Arguments.readAlone_empty : Arguments.ReadAlone options [] .empty := by
  constructor <;> simp

theorem Grammar.Says.readAlone {dialect : Dialect} {levels : Nat} (hne : tokens ≠ [])
    (h : Says (ofLevels dialect levels) tokens arguments) :
    arguments.ReadAlone ⟨dialect, levels⟩ tokens := by
  have hno : (∀ value leftover, ¬ Grammar.anPlusB.Matches tokens value leftover) ↔
      ¬ IsAnPlusB tokens := by
    rw [← exists_matches_anPlusB_iff]
    simp
  cases arguments with
  | empty => cases h
  | anPlusB value =>
      cases h with
      | anPlusB h =>
          have hvalue : IsAnPlusB tokens := exists_matches_anPlusB_iff.1 ⟨_, _, h⟩
          constructor <;> simp [hne, hvalue]
  | selectors list =>
      obtain ⟨hvalue, hok⟩ := says_selectors_iff.1 h
      rw [hno] at hvalue
      constructor <;> simp [hne, hvalue, hok]
  | raw kept =>
      obtain ⟨rfl, hvalue, hmalformed⟩ := says_raw_iff.1 h
      obtain ⟨hlist, -⟩ := isMalformed_iff.1 hmalformed
      rw [hno] at hvalue
      constructor <;> simp [hne, hvalue, hlist, hmalformed, eq_comm]

/-- Every function of a list that was read, at whatever depth, holds what its arguments say on
their own. The levels left to them are those of the list without one for each function around
them and one for the function itself, and there are that many unless they are blank. -/
theorem parse_arguments_alone (h : parseTokens options tokens = .ok list)
    (hcall : CallAt list depth function arguments) :
    function.isFunction = true ∧ (argumentTokens function ≠ [] → depth < options.maxDepth) ∧
      arguments.ReadAlone ⟨options.dialect, options.maxDepth - depth - 1⟩
        (argumentTokens function) := by
  obtain ⟨hlist, -⟩ := parseTokens_eq_ok_iff.1 h
  obtain ⟨hfunction, deeper, hlevels, hyields⟩ := hlist.yields_of_callAt hcall
  refine ⟨hfunction, ?_⟩
  by_cases hnil : argumentTokens function = []
  · obtain rfl := (yields_empty_iff hnil).1 hyields
    rw [hnil]
    exact ⟨by simp, Arguments.readAlone_empty⟩
  · cases deeper with
    | zero => exact absurd hyields (not_yields_zero hnil)
    | succ deeper =>
        have hsays := (yields_succ_iff hnil).1 hyields
        have hdeeper : options.maxDepth - depth - 1 = deeper := by omega
        rw [hdeeper]
        exact ⟨fun _ => by omega, hsays.readAlone hnil⟩

theorem parse_arguments_alone_twice :
    parseTokens ⟨.standard, 0⟩ [.atom (.hash "b" .id) ⟨9, 11⟩] =
      .ok [.complex (.last ⟨none, [.id (.atom (.hash "b" .id) ⟨9, 11⟩)], []⟩)] := by
  let b : Token := .atom (.hash "b" .id) ⟨9, 11⟩
  let innermost : List Selector := [.complex (.last ⟨none, [.id b], []⟩)]
  let is : Token := .function "is" [b] ⟨6, 12⟩
  let inner : List Selector :=
    [.complex (.last ⟨none, [.pseudoClass (.function is (.selectors innermost))], []⟩)]
  let not : Token := .function "not" [.atom .colon ⟨5, 6⟩, is] ⟨1, 13⟩
  have h : parseTokens ⟨.standard, 2⟩ [.atom .colon ⟨0, 1⟩, not] =
      .ok [.complex (.last ⟨none, [.pseudoClass (.function not (.selectors inner))], []⟩)] := by
    with_unfolding_all rfl
  have hinner : CallAt inner 0 is (.selectors innermost) := .here (List.mem_singleton_self _)
  have halone := parse_arguments_alone h (.inside (List.mem_singleton_self _) hinner)
  exact ((halone.2.2.selectors innermost).1 rfl).2.2

/-! ## Well-formed lists -/

namespace Token

theorem isInsignificant_of_mem_head?_dropWhile {t : Token}
    (h : t ∈ (tokens.dropWhile isInsignificant).head?) : t.isInsignificant = false := by
  have hhead := List.head?_dropWhile_not isInsignificant tokens
  rw [h] at hhead
  simpa using hhead

theorem isInsignificant_of_mem_head?_trim {t : Token} (h : t ∈ (trim tokens).head?) :
    t.isInsignificant = false := by
  have hfront : trim tokens <+: tokens.dropWhile isInsignificant := by
    rw [← List.reverse_reverse (tokens.dropWhile isInsignificant)]
    exact List.reverse_prefix.2 (List.dropWhile_suffix _)
  obtain ⟨ts, htrim⟩ := List.head?_eq_some_iff.1 h
  obtain ⟨back, hback⟩ := hfront
  have hhead : t ∈ (tokens.dropWhile isInsignificant).head? := by
    rw [← hback, htrim]
    rfl
  exact isInsignificant_of_mem_head?_dropWhile hhead

theorem solid_trim (tokens : List Token) : Solid (trim tokens) := by
  cases h : trim tokens with
  | nil => exact solid_nil
  | cons t ts =>
      apply solid_cons_iff.2
      apply isInsignificant_of_mem_head?_trim
      rw [h]
      rfl

theorem isInsignificant_of_mem_getLast?_trim {t : Token} (h : t ∈ (trim tokens).getLast?) :
    t.isInsignificant = false := by
  rw [trim, List.getLast?_reverse] at h
  exact isInsignificant_of_mem_head?_dropWhile h

end Token

theorem Grammar.wellFormed_of_yields {dialect : Dialect} {levels : Nat}
    (h : (ofLevels dialect levels).Yields function arguments) : arguments.WellFormed dialect := by
  by_cases hnil : argumentTokens function = []
  · obtain rfl := (yields_empty_iff hnil).1 h
    trivial
  · cases levels with
    | zero => exact absurd h (not_yields_zero hnil)
    | succ levels =>
        have hsays := (yields_succ_iff hnil).1 h
        cases hsays with
        | anPlusB hmatches =>
            obtain ⟨_, _, _, _, _, _, hvalue⟩ := matches_anPlusB hmatches
            exact (AnPlusB.derive_of_ofTokens? hvalue).2
        | selectors _ _ _ =>
            obtain ⟨deeper, -, hlist⟩ := accepts_of_yields_selectors h
            exact ⟨hlist.nonempty, hlist.wellFormed⟩
        | raw _ _ _ =>
            exact ⟨hnil, fun t => Token.isInsignificant_of_mem_head?_trim,
              fun t => Token.isInsignificant_of_mem_getLast?_trim⟩

/-- Whatever is read is well formed, and so is what its functions hold at every depth. -/
theorem parse_wellFormed (h : parseTokens options tokens = .ok list) :
    list ≠ [] ∧ (∀ s ∈ list, s.WellFormed options.dialect) ∧
      ∀ depth function arguments, CallAt list depth function arguments →
        arguments.WellFormed options.dialect := by
  obtain ⟨hlist, -⟩ := parseTokens_eq_ok_iff.1 h
  refine ⟨hlist.nonempty, hlist.wellFormed, fun depth function arguments hcall => ?_⟩
  obtain ⟨-, deeper, -, hyields⟩ := hlist.yields_of_callAt hcall
  exact wellFormed_of_yields hyields

theorem parse_wellFormed_raw :
    ∃ list, parseTokens ⟨.standard, 1⟩ [.atom .colon ⟨0, 1⟩,
        .function "f" [.atom .whitespace ⟨3, 4⟩, .atom (.delim '/') ⟨4, 5⟩] ⟨1, 6⟩] = .ok list ∧
      list ≠ [] ∧ (∀ s ∈ list, s.WellFormed .standard) ∧
        ∀ depth function arguments, CallAt list depth function arguments →
          arguments.WellFormed .standard := by
  let f : Token := .function "f" [.atom .whitespace ⟨3, 4⟩, .atom (.delim '/') ⟨4, 5⟩] ⟨1, 6⟩
  have h : parseTokens ⟨.standard, 1⟩ [.atom .colon ⟨0, 1⟩, f] = .ok [.complex (.last
      ⟨none, [.pseudoClass (.function f (.raw [.atom (.delim '/') ⟨4, 5⟩]))], []⟩)] := by
    with_unfolding_all rfl
  exact ⟨_, h, parse_wellFormed h⟩

end CssSelectors
