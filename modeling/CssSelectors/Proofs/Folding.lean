import CssSelectors.Proofs.Matching
import CssSelectors.Proofs.Walking
import CssSelectors.Grammar.Selector

/-!
# Folding links into a chain

A chain can be built from its right end. Its compounds and its combinators are kept apart, and each
round takes the last compound that is left and puts it before the chain there is, with the last
combinator between them. What is left and what is in the chain are together always the same
compounds and the same combinators in the same order. So the chain in the end is the one that
follows the links from the left, and it gives back all of them.
-/

namespace CssSelectors

/-! ## The links of a chain -/

namespace Complex

def left : Complex → Compound
  | .last left => left
  | .link left _ _ => left

/-- What is passed on the way to the right end: each combinator, and the compound behind it. -/
def links : Complex → List (Combinator × Compound)
  | .last _ => []
  | .link _ combinator right => (combinator, right.left) :: right.links

theorem left_ofLinks (first : Compound) (links : List (Combinator × Compound)) :
    (ofLinks first links).left = first := by
  cases links <;> rfl

theorem links_ofLinks (first : Compound) (links : List (Combinator × Compound)) :
    (ofLinks first links).links = links := by
  induction links generalizing first with
  | nil => rfl
  | cons link others ih =>
      obtain ⟨combinator, next⟩ := link
      rw [ofLinks, Complex.links, left_ofLinks, ih]

theorem ofLinks_links (chain : Complex) : ofLinks chain.left chain.links = chain := by
  induction chain using Complex.links.induct with
  | case1 left => rfl
  | case2 left combinator right ih => rw [Complex.links, ofLinks, ih, Complex.left]

theorem ofLinks_eq_iff {first : Compound} {links : List (Combinator × Compound)}
    {chain : Complex} :
    ofLinks first links = chain ↔ chain.left = first ∧ chain.links = links := by
  constructor
  · rintro rfl
    exact ⟨left_ofLinks first links, links_ofLinks first links⟩
  · rintro ⟨rfl, rfl⟩
    exact chain.ofLinks_links

theorem compounds_eq (chain : Complex) :
    chain.compounds = chain.left :: chain.links.map (·.2) := by
  induction chain using Complex.links.induct with
  | case1 left => rfl
  | case2 left combinator right ih => rw [compounds, ih, Complex.links, List.map_cons, Complex.left]

theorem combinators_eq (chain : Complex) : chain.combinators = chain.links.map (·.1) := by
  induction chain using Complex.links.induct with
  | case1 left => rfl
  | case2 left combinator right ih => rw [combinators, ih, Complex.links, List.map_cons]

theorem compounds_ofLinks (first : Compound) (links : List (Combinator × Compound)) :
    (ofLinks first links).compounds = first :: links.map (·.2) := by
  rw [compounds_eq, left_ofLinks, links_ofLinks]

theorem combinators_ofLinks (first : Compound) (links : List (Combinator × Compound)) :
    (ofLinks first links).combinators = links.map (·.1) := by
  rw [combinators_eq, links_ofLinks]

/-- The compounds and the combinators of a chain leave open nothing of how they are joined. -/
theorem eq_of_compounds_of_combinators {chain chain' : Complex}
    (hcompounds : chain.compounds = chain'.compounds)
    (hcombinators : chain.combinators = chain'.combinators) : chain = chain' := by
  rw [compounds_eq, compounds_eq, List.cons.injEq] at hcompounds
  rw [combinators_eq, combinators_eq] at hcombinators
  obtain ⟨hleft, hnexts⟩ := hcompounds
  have hlinks : chain.links = chain'.links := by
    rw [← List.zip_unzip chain.links, ← List.zip_unzip chain'.links, List.unzip_eq_map,
      List.unzip_eq_map]
    exact congrArg₂ List.zip hcombinators hnexts
  rw [← chain.ofLinks_links, hleft, hlinks, chain'.ofLinks_links]

theorem map_left_suffixes (chain : Complex) : chain.suffixes.map left = chain.compounds := by
  induction chain using Complex.compounds.induct with
  | case1 left => rfl
  | case2 left combinator right ih =>
      rw [suffixes, compounds, List.map_cons, ih, Complex.left]

/-- Behind the compound at a place there is the combinator at the same place, and behind the last
compound there is none. -/
theorem combinator?_suffixes (chain : Complex) (i : Nat) :
    chain.suffixes[i]?.bind combinator? = chain.combinators[i]? := by
  induction chain using Complex.combinators.induct generalizing i with
  | case1 left => cases i <;> rfl
  | case2 left combinator right ih =>
      cases i with
      | zero => rfl
      | succ i => exact ih i

end Complex

/-! ## Building from the right -/

/-- A chain that is being built, and what there is to the left of it. -/
structure Folding where
  compounds : List Compound
  combinators : List Combinator
  chain : Option Complex

namespace Folding

variable {s : Folding} {compounds : List Compound} {combinators : List Combinator}

def start (first : Compound) (links : List (Combinator × Compound)) : Folding :=
  { compounds := first :: links.unzip.2
    combinators := links.unzip.1
    chain := none }

/-- A round, which takes the last compound. The first one begins the chain. All others take the
last combinator too, and without one they would lose the chain to their right. -/
def round (s : Folding) (left : Compound) : Folding :=
  match s.chain with
  | none =>
    { compounds := s.compounds.dropLast
      combinators := s.combinators
      chain := some (.last left) }
  | some right =>
    { compounds := s.compounds.dropLast
      combinators := s.combinators.dropLast
      chain := match s.combinators.getLast? with
        | some combinator => some (.link left combinator right)
        | none => some (.last left) }

theorem compounds_round (s : Folding) (left : Compound) :
    (s.round left).compounds = s.compounds.dropLast := by
  unfold round
  split <;> rfl

theorem length_compounds_round_lt {left : Compound} (hlast : s.compounds.getLast? = some left) :
    (s.round left).compounds.length < s.compounds.length := by
  obtain ⟨front, hfront⟩ := List.getLast?_eq_some_iff.1 hlast
  rw [compounds_round, hfront, List.dropLast_concat, List.length_append]
  exact Nat.lt_succ_self _

def run (s : Folding) : Option Complex :=
  match hlast : s.compounds.getLast? with
  | none => s.chain
  | some left =>
    have : (s.round left).compounds.length < s.compounds.length :=
      length_compounds_round_lt hlast
    (s.round left).run
termination_by s.compounds.length

/-- What is left and what is in the chain are together the given compounds and combinators. -/
structure Keeps (compounds : List Compound) (combinators : List Combinator) (s : Folding) :
    Prop where
  compounds_eq : s.compounds ++ s.chain.elim [] Complex.compounds = compounds
  combinators_eq : s.combinators ++ s.chain.elim [] Complex.combinators = combinators

theorem keeps_start (first : Compound) (links : List (Combinator × Compound)) :
    (start first links).Keeps (first :: links.map (·.2)) (links.map (·.1)) := by
  unfold start
  rw [List.unzip_eq_map]
  exact ⟨List.append_nil _, List.append_nil _⟩

section Rounds

variable (hlength : compounds.length = combinators.length + 1)
include hlength

theorem Keeps.length_combinators (h : s.Keeps compounds combinators) {right : Complex}
    (hchain : s.chain = some right) : s.combinators.length = s.compounds.length := by
  have hcompounds := congrArg List.length h.compounds_eq
  have hcombinators := congrArg List.length h.combinators_eq
  have hright := right.length_combinators
  rw [hchain, Option.elim_some, List.length_append] at hcompounds hcombinators
  omega

theorem Keeps.round (h : s.Keeps compounds combinators) {left : Compound}
    (hlast : s.compounds.getLast? = some left) : (s.round left).Keeps compounds combinators := by
  have hcompounds := h.compounds_eq
  have hcombinators := h.combinators_eq
  obtain ⟨front, hfront⟩ := List.getLast?_eq_some_iff.1 hlast
  unfold Folding.round
  cases hchain : s.chain with
  | none =>
      rw [hfront, hchain] at hcompounds
      rw [hchain] at hcombinators
      refine ⟨?_, hcombinators⟩
      rw [hfront, List.dropLast_concat]
      simpa [Complex.compounds] using hcompounds
  | some right =>
      have hmany := h.length_combinators hlength hchain
      -- one is left for the compound that is taken, so what stands to its right is kept
      have hne : s.combinators ≠ [] := by
        apply List.ne_nil_of_length_pos
        rw [hmany, hfront, List.length_append]
        exact Nat.succ_pos _
      obtain ⟨others, combinator, hothers⟩ := (List.eq_nil_or_concat' _).resolve_left hne
      rw [hfront, hchain] at hcompounds
      rw [hothers, hchain] at hcombinators
      constructor
      · simpa [hfront, hothers, Complex.compounds] using hcompounds
      · simpa [hothers, Complex.combinators] using hcombinators

theorem Keeps.run (h : s.Keeps compounds combinators) :
    ∃ chain, s.run = some chain ∧ chain.compounds = compounds ∧
      chain.combinators = combinators := by
  fun_induction Folding.run s with
  | case1 s hlast =>
      have hnil : s.compounds = [] := List.getLast?_eq_none_iff.1 hlast
      have hcompounds := h.compounds_eq
      have hcombinators := h.combinators_eq
      cases hchain : s.chain with
      | none =>
          -- no compounds at all, but there is one more of them than of the combinators
          rw [hnil, hchain] at hcompounds
          subst hcompounds
          cases hlength
      | some chain =>
          have hnone : s.combinators = [] := by
            apply List.eq_nil_of_length_eq_zero
            rw [h.length_combinators hlength hchain, hnil, List.length_nil]
          rw [hnil, hchain] at hcompounds
          rw [hnone, hchain] at hcombinators
          exact ⟨chain, rfl, hcompounds, hcombinators⟩
  | case2 s left hlast _ ih => exact ih (h.round hlength hlast)

end Rounds

theorem run_start (first : Compound) (links : List (Combinator × Compound)) :
    (start first links).run = some (.ofLinks first links) := by
  have hlength : (first :: links.map (·.2)).length = (links.map (·.1)).length + 1 := by simp
  obtain ⟨chain, hrun, hcompounds, hcombinators⟩ := (keeps_start first links).run hlength
  have hchain : chain = .ofLinks first links := by
    apply Complex.eq_of_compounds_of_combinators
    · rw [hcompounds, Complex.compounds_ofLinks]
    · rw [hcombinators, Complex.combinators_ofLinks]
  rw [hrun, hchain]

end Folding

/-! ## Reading a chain -/

namespace Grammar

open Production

variable {tokens rest : List Token}

/-- A chain that is built from the right once its links are read. It would not match if there were
no chain after the last round. -/
def foldedSelector (g : Grammar) : Production Complex := do
  let first ← compound g
  let links ← many (link g)
  match (Folding.start first links).run with
  | some chain => return chain
  | none => fail

theorem foldedSelector_eq (g : Grammar) : foldedSelector g = complexSelector g := by
  unfold foldedSelector complexSelector
  simp only [Folding.run_start]

theorem matches_complexSelector_iff_links (g : Grammar) {chain : Complex} :
    (complexSelector g).Matches tokens chain rest ↔
      ∃ middle, (compound g).Matches tokens chain.left middle ∧
        (many (link g)).Matches middle chain.links rest := by
  simp only [complexSelector, matches_bind_iff, matches_pure_iff, Complex.ofLinks_eq_iff]
  constructor
  · rintro ⟨first, middle, hfirst, links, _, hlinks, ⟨rfl, rfl⟩, rfl⟩
    exact ⟨middle, hfirst, hlinks⟩
  · rintro ⟨middle, hfirst, hlinks⟩
    exact ⟨_, middle, hfirst, _, rest, hlinks, ⟨rfl, rfl⟩, rfl⟩

theorem refuses_complexSelector_iff (g : Grammar) :
    (complexSelector g).Refuses tokens ↔ (compound g).Refuses tokens := by
  simp [complexSelector]

end Grammar

open Grammar Production

/-- Folding always gives a chain, and the chain gives back all that was folded: the first compound,
and behind it every combinator between the same two compounds, in the same order. Going through it
to the right meets at each step the compound and the combinator of that place. It is the chain that
is read wherever the compound and the links are read. -/
theorem fold_conserves_links :
    (∀ (first : Compound) (links : List (Combinator × Compound)),
      ∃ chain, (Folding.start first links).run = some chain ∧
        chain.left = first ∧ chain.links = links ∧
        chain.compounds = first :: links.map (·.2) ∧
        chain.combinators = links.map (·.1) ∧
        ∀ i : Nat,
          chain.suffixes[i]?.map Complex.left = (first :: links.map (·.2))[i]? ∧
          chain.suffixes[i]?.bind Complex.combinator? = (links.map (·.1))[i]?) ∧
    ∀ g : Grammar, foldedSelector g = complexSelector g ∧
      ∀ tokens, ((complexSelector g).Refuses tokens ↔ (compound g).Refuses tokens) ∧
        ∀ chain rest, (complexSelector g).Matches tokens chain rest ↔
          ∃ middle, (compound g).Matches tokens chain.left middle ∧
            (many (link g)).Matches middle chain.links rest := by
  constructor
  · intro first links
    have hcompounds := Complex.compounds_ofLinks first links
    have hcombinators := Complex.combinators_ofLinks first links
    refine ⟨.ofLinks first links, Folding.run_start first links, ?_⟩
    refine ⟨Complex.left_ofLinks first links, Complex.links_ofLinks first links, ?_⟩
    refine ⟨hcompounds, hcombinators, fun i => ⟨?_, ?_⟩⟩
    · rw [← List.getElem?_map, Complex.map_left_suffixes, hcompounds]
    · rw [Complex.combinator?_suffixes, hcombinators]
  · intro g
    refine ⟨foldedSelector_eq g, fun tokens => ?_⟩
    exact ⟨refuses_complexSelector_iff g, fun _ _ => matches_complexSelector_iff_links g⟩

/-- With three compounds, each combinator stands between its own two. -/
example (a b c : Compound) (x y : Combinator) :
    (Folding.start a [(x, b), (y, c)]).run = some (.link a x (.link b y (.last c))) := by
  with_unfolding_all rfl

end CssSelectors
