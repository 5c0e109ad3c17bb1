import CssSelectors.Proofs.Reaching
import CssSelectors.Proofs.Registry

/-!
# What is warned of

Reading a list warns of the functions whose arguments were kept as tokens. Before they were
kept, the arguments were read as a list of their own, and what this attempt warned of stays
warned of although its list was given up. So the functions in these tokens are warned of as
well, as far as a list goes that the tokens begin with.
-/

namespace CssSelectors

open Production Grammar

/-- Warned of in a list are the functions whose arguments were kept as tokens, and whatever is
warned of in the lists that such tokens begin with. -/
inductive Warned (dialect : Dialect) : Nat → List Selector → String → Prop
  | kept {levels depth : Nat} {list : List Selector} {function : Token} {tokens : List Token}
      (h : CallAt list depth function (.raw tokens)) :
      Warned dialect levels list (function.functionName?.getD "")
  | tried {levels depth : Nat} {list inner : List Selector} {function : Token}
      {tokens front : List Token} {name : String} (h : CallAt list depth function (.raw tokens))
      (hfront : front <+: tokens)
      (hinner : parseTokens ⟨dialect, levels - depth - 1⟩ front = .ok inner)
      (hname : Warned dialect (levels - depth - 1) inner name) :
      Warned dialect levels list name

variable {dialect : Dialect} {levels : Nat} {options : Options} {tokens kept : List Token}
  {list inner : List Selector} {function : Token} {arguments : Arguments} {name : String}

theorem Warned.inside (h : (function, .selectors inner) ∈ Selector.callsOfList list)
    (hname : Warned dialect levels inner name) : Warned dialect (levels + 1) list name := by
  cases hname with
  | kept hcall => exact .kept (.inside h hcall)
  | @tried _ depth _ deeper _ _ front _ hcall hfront hok hname =>
      have hlevels : levels + 1 - (depth + 1) - 1 = levels - depth - 1 := by omega
      rw [← hlevels] at hok hname
      exact .tried (.inside h hcall) hfront hok hname

/-! ## Names that are kept -/

/-- The arguments of a function keep what reading them as a list has kept, and the function if
they are kept as tokens. -/
theorem mem_keptIn_iff (h : (ofLevels dialect levels).Yields function arguments) :
    name ∈ (ofLevels dialect levels).keptIn function ↔
      (∃ inner, arguments = .selectors inner ∧
        name ∈ (readTokens ⟨dialect, levels - 1⟩ (argumentTokens function)).keptRaw) ∨
      ∃ kept, arguments = .raw kept ∧
        (name ∈ (readTokens ⟨dialect, levels - 1⟩ kept).keptRaw ∨
          name = function.functionName?.getD "") := by
  by_cases hnil : argumentTokens function = []
  · obtain rfl := (yields_empty_iff hnil).1 h
    have hkeeps : (ofLevels dialect levels).keptIn function = [] := by
      simp only [keptIn, ofLevels, readArguments_of_nil hnil]
      rfl
    simp [hkeeps]
  · cases levels with
    | zero => exact absurd h (not_yields_zero hnil)
    | succ deeper =>
        have hsays := (yields_succ_iff hnil).1 h
        have hmatches : (readNested (ofLevels dialect deeper) (function.functionName?.getD "")
            (argumentTokens function)).Matches [] arguments [] := yields_readNested_iff.2 hsays []
        have hkeeps : (ofLevels dialect (deeper + 1)).keptIn function =
            (readNested (ofLevels dialect deeper) (function.functionName?.getD "")
              (argumentTokens function) []).keptRaw := by
          rw [keptIn, show (ofLevels dialect (deeper + 1)).arguments function = _ from
            readArguments_succ hnil]
        have hlist (tokens : List Token) : (readTokens ⟨dialect, deeper⟩ tokens).keptRaw =
            ((ofLevels dialect deeper).wholeList tokens).keptRaw := rfl
        rw [hkeeps, keptRaw_readNested, show _ = _ from hmatches, Nat.add_sub_cancel]
        cases hsays <;> simp [hlist]

theorem mem_keptRaw_of_callAt {depth : Nat}
    (hok : parseTokens ⟨dialect, levels⟩ tokens = .ok list)
    (hcall : CallAt list depth function arguments)
    (hname : name ∈ (ofLevels dialect (levels - depth)).keptIn function) :
    name ∈ (readTokens ⟨dialect, levels⟩ tokens).keptRaw := by
  induction hcall generalizing levels tokens with
  | here hmem =>
      rw [keptRaw_of_ok hok]
      exact List.mem_flatMap.2 ⟨_, hmem, hname⟩
  | inside hmem _ ih =>
      have hyields := (parseTokens_eq_ok_iff.1 hok).1.yields _ hmem
      obtain ⟨deeper, rfl, hinner⟩ := parseTokens_of_yields_selectors hyields
      rw [Nat.add_sub_add_right] at hname
      have hinside := ih hinner hname
      rw [keptRaw_of_ok hok]
      exact List.mem_flatMap.2 ⟨_, hmem, (mem_keptIn_iff hyields).2 (.inl ⟨_, rfl, hinside⟩)⟩

theorem mem_keptRaw_of_warned (h : Warned dialect levels list name)
    (hok : parseTokens ⟨dialect, levels⟩ tokens = .ok list) :
    name ∈ (readTokens ⟨dialect, levels⟩ tokens).keptRaw := by
  induction h generalizing tokens with
  | @kept levels depth list function kept hcall =>
      obtain ⟨-, deeper, rfl, hyields⟩ := (parseTokens_eq_ok_iff.1 hok).1.yields_of_callAt hcall
      apply mem_keptRaw_of_callAt hok hcall
      rw [Nat.add_sub_cancel_left]
      exact (mem_keptIn_iff hyields).2 (.inr ⟨kept, rfl, .inr rfl⟩)
  | @tried levels depth list inner function kept front name hcall hfront hinner _ ih =>
      obtain ⟨-, deeper, rfl, hyields⟩ := (parseTokens_eq_ok_iff.1 hok).1.yields_of_callAt hcall
      apply mem_keptRaw_of_callAt hok hcall
      rw [Nat.add_sub_cancel_left] at hinner ih ⊢
      have hkept := keptRaw_subset_of_front hfront hinner (ih hinner)
      exact (mem_keptIn_iff hyields).2 (.inr ⟨kept, rfl, .inl hkept⟩)

theorem warned_of_mem_keptRaw (hok : parseTokens ⟨dialect, levels⟩ tokens = .ok list)
    (hname : name ∈ (readTokens ⟨dialect, levels⟩ tokens).keptRaw) :
    Warned dialect levels list name := by
  induction levels using Nat.strongRecOn generalizing tokens list with
  | ind levels ih =>
      rw [keptRaw_of_ok hok] at hname
      obtain ⟨⟨function, arguments⟩, hmem, hname⟩ := List.mem_flatMap.1 hname
      have hyields := (parseTokens_eq_ok_iff.1 hok).1.yields _ hmem
      rcases (mem_keptIn_iff hyields).1 hname with ⟨inner, rfl, hname⟩ | ⟨kept, rfl, hname | rfl⟩
      · obtain ⟨deeper, rfl, hinner⟩ := parseTokens_of_yields_selectors hyields
        exact .inside hmem (ih deeper (Nat.lt_succ_self _) hinner hname)
      · obtain ⟨-, deeper, rfl, hmalformed⟩ := isMalformed_of_yields_raw hyields
        obtain ⟨front, items, hfront, hitems, hname⟩ := exists_front_of_mem_keptRaw hmalformed hname
        exact .tried (.here hmem) hfront hitems (ih deeper (Nat.lt_succ_self _) hitems hname)
      · exact .kept (.here hmem)

/-! ## The record -/

theorem Warning.keptRaw_key_injective :
    Function.Injective fun name => (Warning.keptRaw name).key := by
  intro name name' h
  have hnames : name.toList = name'.toList := by
    simpa [key, keptRaw] using congrArg String.toList h
  exact String.toList_inj.1 hnames

namespace WarningLog

/-- The record has one entry for each function of the given names, and no others. -/
def HasOneEach (log : WarningLog) (names : Set String) : Prop :=
  ∃ entries : List String, entries.Nodup ∧
    log.recorded = entries.map (fun name => (Warning.keptRaw name).key) ∧
      ∀ name, name ∈ entries ↔ name ∈ names

variable {log : WarningLog} {names : Set String}

theorem HasOneEach.record (h : log.HasOneEach names) (name : String) :
    (log.record (.keptRaw name)).2.HasOneEach (insert name names) := by
  obtain ⟨entries, hnodup, hrecorded, hnames⟩ := h
  have hmem : (Warning.keptRaw name).key ∈ log.recorded ↔ name ∈ entries := by
    rw [hrecorded]
    exact List.mem_map_of_injective Warning.keptRaw_key_injective
  by_cases hold : name ∈ entries
  · have hrecord : (log.record (.keptRaw name)).2 = log := by
      simp [WarningLog.record, hmem.2 hold]
    have hinsert : insert name names = names := Set.insert_eq_of_mem ((hnames name).1 hold)
    rw [hrecord, hinsert]
    exact ⟨entries, hnodup, hrecorded, hnames⟩
  · refine ⟨name :: entries, List.nodup_cons.2 ⟨hold, hnodup⟩, ?_, ?_⟩
    · have hnew : (Warning.keptRaw name).key ∉ log.recorded := mt hmem.1 hold
      simpa [WarningLog.record, hnew] using hrecorded
    · simp [hnames]

theorem HasOneEach.recordAll (h : log.HasOneEach names) (kept : List String) :
    (log.recordAll (kept.map .keptRaw)).HasOneEach (names ∪ {name | name ∈ kept}) := by
  induction kept generalizing log names with
  | nil =>
      have hunion : names ∪ {name | name ∈ ([] : List String)} = names := by simp
      rw [hunion]
      exact h
  | cons name kept ih =>
      have hunion : names ∪ {other | other ∈ name :: kept} =
          insert name names ∪ {other | other ∈ kept} := by
        ext other
        simp [or_left_comm, or_assoc]
      rw [hunion]
      exact ih (h.record name)

end WarningLog

/-- Reading a list into an empty record leaves one entry for each function that is warned of in it,
and no others. Whether warnings are shown makes no difference. -/
theorem recorded_eq_warned (h : parseTokens options tokens = .ok list) (enabled : Bool)
    (shown : String) :
    (WarningLog.recordAll ⟨[], enabled, shown⟩
      ((readTokens options tokens).keptRaw.map .keptRaw)).HasOneEach
        {name | Warned options.dialect options.maxDepth list name} := by
  have hempty : WarningLog.HasOneEach ⟨[], enabled, shown⟩ ∅ := ⟨[], List.nodup_nil, rfl, by simp⟩
  have hnames : ∅ ∪ {name | name ∈ (readTokens options tokens).keptRaw} =
      {name | Warned options.dialect options.maxDepth list name} := by
    ext name
    rw [Set.empty_union]
    exact ⟨warned_of_mem_keptRaw h, fun hname => mem_keptRaw_of_warned hname h⟩
  rw [← hnames]
  exact hempty.recordAll _

/-- In `:f(:g($) $)` the arguments of `f` are kept as tokens, so `f` is the only function of the
list. But `g` is warned of as well. -/
theorem recorded_eq_warned_given_up :
    ∃ list, parse {} ":f(:g($) $)" = .ok list ∧
      (∀ depth function arguments, CallAt list depth function arguments →
        function.functionName? = some "f") ∧
      (Warning.keptRaw "g").key ∈ (WarningLog.recordAll {}
        ((readTokens {} (tokenize ":f(:g($) $)")).keptRaw.map .keptRaw)).recorded := by
  let g : Token := .function "g" [.atom (.delim '$') ⟨6, 7⟩] ⟨4, 8⟩
  let kept : List Token :=
    [.atom .colon ⟨3, 4⟩, g, .atom .whitespace ⟨8, 9⟩, .atom (.delim '$') ⟨9, 10⟩]
  let f : Token := .function "f" kept ⟨1, 11⟩
  let inner : List Selector := [.complex (.last ⟨none, [.pseudoClass
    (.function g (.raw [.atom (.delim '$') ⟨6, 7⟩]))], []⟩)]
  let list : List Selector :=
    [.complex (.last ⟨none, [.pseudoClass (.function f (.raw kept))], []⟩)]
  have hinner : parseTokens ⟨.standard, 31⟩ [.atom .colon ⟨3, 4⟩, g] = .ok inner := by
    dsimp only [inner, g]
    with_unfolding_all rfl
  have hok : parse {} ":f(:g($) $)" = .ok list := by
    have htokens :
        tokenize ":f(:g($) $)" = [.atom .colon ⟨0, 1⟩, f, .atom .eof ⟨11, 11⟩] := by
      with_unfolding_all rfl
    rw [parse, htokens]
    dsimp only [list, f, kept, g]
    with_unfolding_all rfl
  refine ⟨list, hok, ?_, ?_⟩
  · intro depth function arguments hcall
    cases hcall with
    | here h =>
        have hf : function = f := congrArg Prod.fst (List.mem_singleton.1 h)
        rw [hf]
        rfl
    | inside h _ => simpa using congrArg Prod.snd (List.mem_singleton.1 h)
  · obtain ⟨entries, -, hrecorded, hentries⟩ := recorded_eq_warned hok true ""
    have hcall : CallAt list 0 f (.raw kept) := .here (List.mem_singleton_self _)
    have hfront : [.atom .colon ⟨3, 4⟩, g] <+: kept := ⟨_, rfl⟩
    have hg : CallAt inner 0 g (.raw [.atom (.delim '$') ⟨6, 7⟩]) :=
      .here (List.mem_singleton_self _)
    have hmem : "g" ∈ entries := (hentries "g").2 (.tried hcall hfront hinner (.kept hg))
    rw [hrecorded]
    exact List.mem_map_of_mem hmem

end CssSelectors
