import CssSelectors.Cli.Report
import CssSelectors.Proofs.Walking
import Mathlib.Algebra.Order.BigOperators.Group.List
import Mathlib.Algebra.Order.Group.Nat

/-!
# Lines of a tree

The tree of a selector list has a line for each node that a walk passes. What is said of a node
is broken into several lines where one of the texts that it repeats holds a line break, as the
names in tokens can.
-/

namespace CssSelectors

namespace Listing

/-! ## Splitting into lines -/

/-- Lines that are ended one after the other are split as each of them is alone. Nothing stands
behind the last one. -/
theorem splitOn_ended (lines : List (List Char)) :
    (lines.flatMap (· ++ ['\n'])).splitOn '\n' = lines.flatMap (·.splitOn '\n') ++ [[]] := by
  induction lines with
  | nil => rfl
  | cons line lines ih =>
      have hcut : (line ++ '\n' :: lines.flatMap (· ++ ['\n'])).splitOn '\n' =
          line.splitOn '\n' ++ (lines.flatMap (· ++ ['\n'])).splitOn '\n' :=
        List.splitOnP_append_cons line _ (beq_self_eq_true '\n')
      rw [List.flatMap_cons, List.append_assoc, List.singleton_append, hcut, ih,
        List.flatMap_cons, List.append_assoc]

theorem one_lt_length_splitOn {line : List Char} (h : '\n' ∈ line) :
    1 < (line.splitOn '\n').length := by
  obtain ⟨before, behind, rfl⟩ := List.append_of_mem h
  have hcut : (before ++ '\n' :: behind).splitOn '\n' =
      before.splitOn '\n' ++ behind.splitOn '\n' :=
    List.splitOnP_append_cons before behind (beq_self_eq_true '\n')
  have hbefore := List.length_pos_iff.2 (List.splitOnP_ne_nil (· == '\n') before)
  have hbehind := List.length_pos_iff.2 (List.splitOnP_ne_nil (· == '\n') behind)
  rw [hcut, List.length_append]
  exact Nat.add_lt_add_of_lt_of_le hbefore hbehind

theorem flatMap_splitOn {lines : List (List Char)} (h : ∀ line ∈ lines, '\n' ∉ line) :
    lines.flatMap (·.splitOn '\n') = lines := by
  rw [List.flatMap_congr fun line hline => List.splitOn_eq_singleton (h line hline),
    List.flatMap_singleton']

/-- There are as many lines as lines were ended only if none of them is broken. -/
theorem length_flatMap_splitOn_iff {lines : List (List Char)} :
    (lines.flatMap (·.splitOn '\n')).length = lines.length ↔ ∀ line ∈ lines, '\n' ∉ line := by
  refine ⟨fun hlength line hline hbreak => ?_, fun h => by rw [flatMap_splitOn h]⟩
  have hpos : ∀ line ∈ lines, 1 ≤ (line.splitOn '\n').length := fun line _ =>
    List.length_pos_iff.2 (List.splitOnP_ne_nil (· == '\n') line)
  have hlt : (lines.map fun _ => 1).sum < (lines.map fun line => (line.splitOn '\n').length).sum :=
    List.sum_lt_sum _ _ hpos ⟨line, hline, one_lt_length_splitOn hbreak⟩
  rw [List.length_flatMap] at hlength
  simp [hlength] at hlt

/-! ## What labels are made of -/

/-- The texts that the line of a node repeats as they stand. Arguments that are kept as tokens are
not among them, since they are quoted. -/
def verbatim : Node → List String
  | .typeSelector (.atKeyword token) => [token.text]
  | .qualifiedName name => [name.name.text]
  | .nsPrefix ns => ns.value.toList.map Token.text
  | .idSelector hash => [hash.text]
  | .classSelector name => [name.text]
  | .attributeSelector ⟨.atKeyword token, _⟩ => [token.text]
  | .attributeSelector ⟨.position token, _⟩ => [token.text]
  | .attributeTest test => [test.value.text]
  | .pseudoClassSelector name => [name.text]
  | .pseudoClassFunction token _ => token.functionName?.toList
  | .xpathFunction function => [function.text]
  | _ => []

theorem newline_notMem_toDigits (n : Nat) : '\n' ∉ Nat.toDigits 16 n := by
  have hdigit (digit : Nat) : '\n' ∉ [Nat.digitChar digit] := fun h =>
    Nat.digitChar_ne '\n' (by decide) (List.mem_singleton.1 h).symm
  induction n using Nat.strongRecOn with
  | ind n ih =>
      rw [Nat.toDigits_eq_if (by decide)]
      split
      · exact hdigit n
      · rw [List.mem_append, not_or]
        exact ⟨ih (n / 16) (by omega), hdigit (n % 16)⟩

theorem newline_notMem_encodeChar (c : Char) : '\n' ∉ Quoted.encodeChar c := by
  unfold Quoted.encodeChar
  split
  case h_7 _ _ hnewline _ _ _ =>
    split
    · simp [Quoted.numbered, newline_notMem_toDigits]
    · exact fun h => hnewline (List.mem_singleton.1 h).symm
  all_goals decide

theorem newline_notMem_encode (text : String) : '\n' ∉ (Quoted.encode text).toList := by
  have hchars : '\n' ∉ text.toList.flatMap Quoted.encodeChar := by
    simp [newline_notMem_encodeChar]
  simpa [Quoted.encode] using hchars

theorem newline_notMem_repr (i : Int) : '\n' ∉ i.repr.toList := by
  have hnat (n : Nat) : '\n' ∉ n.repr.toList := by
    rw [Nat.toList_repr]
    intro h
    have := Nat.isDigit_of_mem_toDigits (by omega) (by omega) h
    exact absurd this (by decide)
  rw [Int.repr_eq_if]
  split
  · exact hnat _
  · simpa using hnat _

/-- A label holds a line break just if one of the texts that it repeats does. -/
theorem newline_mem_label_iff (node : Node) :
    '\n' ∈ (label node).toList ↔ ∃ text ∈ verbatim node, '\n' ∈ text.toList := by
  have hkind : '\n' ∉ node.kindName.toList := by cases node <;> simp [Node.kindName]
  have hlabel : '\n' ∈ (label node).toList ↔ '\n' ∈ (detail node).toList := by
    simp [label, hkind]
  rw [hlabel]
  unfold detail
  split
  case h_4 ns => cases h : ns.value <;> simp [verbatim, h]
  case h_10 combinator => cases combinator.kind <;> simp [verbatim, CombinatorKind.name]
  case h_11 matcher =>
    cases matcher.kind <;> simp [verbatim, MatcherKind.name, MatcherKind.symbol]
  case h_12 modifier => cases modifier.kind <;> simp [verbatim, ModifierKind.name]
  case h_14 token tokens =>
    cases h : token.functionName? <;> simp [verbatim, h, newline_notMem_encode]
  case h_15 token arguments _ => cases h : token.functionName? <;> simp [verbatim, h]
  case h_17 value => simp [verbatim, newline_notMem_repr]
  case h_18 =>
    unfold verbatim
    split <;> simp_all
  all_goals simp [verbatim]

/-! ## Lines of nodes -/

/-- What the line of a node says, without the line break behind it. -/
def line (entry : Nat × Node) : List Char :=
  (indent entry.1 ++ label entry.2).toList

theorem newline_mem_line_iff (entry : Nat × Node) :
    '\n' ∈ line entry ↔ ∃ text ∈ verbatim entry.2, '\n' ∈ text.toList := by
  rw [← newline_mem_label_iff]
  simp [line, indent]

theorem toList_tree (list : List Selector) :
    (tree list).toList =
      ((list.flatMap (·.node.outline 0)).map line).flatMap (· ++ ['\n']) := by
  simp [tree, nodeLine, line, String.toList_join, List.flatMap_map]

end Listing

theorem Report.out_tree {request : Request} {list : List Selector} (hview : request.view = .tree)
    (hparse : parse request.options request.selector = .ok list) :
    (Report.ofRequest request).out = Listing.tree list := by
  have hread : (readTokens request.options (tokenize request.selector)).result = .ok list := hparse
  simp [Report.ofRequest, hview, Report.ofReading, hread]

/-- The tree of a list that is read, split at line breaks, is what its nodes say in the order of
the walk: two blanks for each level, and the label. A node has one line unless a text that its
label repeats holds a line break, and exactly then there are more lines than nodes. -/
theorem tree_lines {request : Request} {list : List Selector} (hview : request.view = .tree)
    (hparse : parse request.options request.selector = .ok list) :
    let entries := list.flatMap (·.node.outline 0)
    let nodes := list.flatMap (·.node.walk)
    let lines := entries.map fun (depth, node) =>
      List.replicate (2 * depth) ' ' ++ (Listing.label node).toList
    let out := (Report.ofRequest request).out.toList.splitOn '\n'
    let broken := ∃ node ∈ nodes, ∃ text ∈ Listing.verbatim node, '\n' ∈ text.toList
    entries.map (·.2) = nodes ∧
      out = lines.flatMap (·.splitOn '\n') ++ [[]] ∧
      (out.length = nodes.length + 1 ↔ ¬broken) ∧ (¬broken → out = lines ++ [[]]) := by
  intro entries nodes lines out broken
  have hnodes : entries.map (·.2) = nodes := List.map_flatMap
  have hlines : lines = entries.map Listing.line :=
    List.map_congr_left fun entry _ => by simp [Listing.line, Listing.indent]
  have hout : out = lines.flatMap (·.splitOn '\n') ++ [[]] := by
    rw [hlines, ← Listing.splitOn_ended, ← Listing.toList_tree, ← Report.out_tree hview hparse]
  have hwhole : (∀ line ∈ lines, '\n' ∉ line) ↔ ¬broken := by
    rw [hlines, List.forall_mem_map]
    simp only [broken, ← hnodes, Listing.newline_mem_line_iff, not_exists, not_and,
      List.forall_mem_map]
  have hlength : lines.length = nodes.length := by
    rw [← hnodes, List.length_map, List.length_map]
  refine ⟨hnodes, hout, ?_, fun h => ?_⟩
  · rw [hout, List.length_append, List.length_singleton, Nat.add_right_cancel_iff, ← hlength,
      Listing.length_flatMap_splitOn_iff, hwhole]
  · rw [hout, Listing.flatMap_splitOn (hwhole.2 h)]

/-- The name in `a\a b` holds a line break, so there are five lines for four nodes. -/
theorem tree_lines_broken :
    (Report.ofRequest ⟨"a\\a b", {}, .tree, false⟩).out =
        "ComplexSelector\n  CompoundSelector\n    TypeSelector\n      WqName a\nb\n" ∧
      ∃ list, parse {} "a\\a b" = .ok list ∧ (list.flatMap (·.node.walk)).length = 4 ∧
        ((Report.ofRequest ⟨"a\\a b", {}, .tree, false⟩).out.toList.splitOn '\n').length ≠
          4 + 1 := by
  let name : Token := .atom (.ident "a\nb") ⟨0, 5⟩
  let list : List Selector := [.complex (.last ⟨some (.name ⟨none, name⟩), [], []⟩)]
  have hparse : parse {} "a\\a b" = .ok list := by
    have htokens : tokenize "a\\a b" = [name, .atom .eof ⟨5, 5⟩] := by with_unfolding_all rfl
    rw [parse, htokens]
    with_unfolding_all rfl
  let request : Request := ⟨"a\\a b", {}, .tree, false⟩
  obtain ⟨-, -, hlength, -⟩ := tree_lines (show request.view = .tree from rfl) hparse
  have hwalk : Node.walk = Node.preorder := funext fun node => Node.map_snd_outline 0 node
  have hnodes : (list.flatMap (·.node.walk)).length = 4 := by
    rw [hwalk]
    rfl
  have hname : .qualifiedName ⟨none, name⟩ ∈ list.flatMap (·.node.walk) := by
    rw [hwalk]
    have hlast : (list.flatMap (·.node.preorder))[3]? = some (.qualifiedName ⟨none, name⟩) := rfl
    exact List.mem_of_getElem? hlast
  have hout : (Report.ofRequest request).out =
      "ComplexSelector\n  CompoundSelector\n    TypeSelector\n      WqName a\nb\n" := by
    have hentries : list.flatMap (·.node.outline 0) =
        [(0, .complexSelector (.last ⟨some (.name ⟨none, name⟩), [], []⟩)),
          (1, .compoundSelector ⟨some (.name ⟨none, name⟩), [], []⟩),
          (2, .typeSelector (.name ⟨none, name⟩)), (3, .qualifiedName ⟨none, name⟩)] := by
      simp [list, Node.outline_eq, Selector.node, Node.children]
    rw [Report.out_tree (show request.view = .tree from rfl) hparse, Listing.tree, hentries]
    decide
  refine ⟨hout, list, hparse, hnodes, ?_⟩
  rw [← hnodes, Ne, hlength, not_not]
  exact ⟨_, hname, "a\nb", List.mem_singleton_self _, by decide⟩

end CssSelectors
