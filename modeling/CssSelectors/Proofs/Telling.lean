import CssSelectors.Proofs.Blame
import CssSelectors.Proofs.Congruence
import CssSelectors.Proofs.Folding

/-!
# Functions that a reading keeps

Which functions a reading keeps for their raw arguments. Nothing fails behind a function once it
is read, so a selector that was read keeps what its functions keep, and one that was not read
keeps nothing. A list keeps what the selectors keep that were read before it came to an end, also
if it came to a bad one.
-/

namespace CssSelectors

namespace Production

variable {α β : Type} {p q : Production α} {f : α → Production β} {tokens rest : List Token}

/-! ## Productions that keep nothing -/

def Mute (p : Production α) : Prop :=
  ∀ tokens, (p tokens).keptRaw = []

namespace Mute

theorem bind (hp : Mute p) (hf : ∀ a, Mute (f a)) : Mute (p >>= f) := by
  intro tokens
  cases houtcome : (p tokens).outcome with
  | matched a rest => rw [bind_eq_of_matched houtcome, Reading.after, hp, hf]; rfl
  | noMatch stuck => rw [bind_eq_of_noMatch houtcome, hp]
  | tooDeep => rw [bind_eq_of_tooDeep houtcome, hp]

theorem orElse (hp : Mute p) (hq : Mute q) : Mute (orElse p q) := by
  intro tokens
  by_cases hrefuses : p.Refuses tokens
  · obtain ⟨stuck, houtcome⟩ := hrefuses
    rw [orElse_eq_of_noMatch houtcome, Reading.after, hp, hq]
    rfl
  · rw [orElse_eq_of_not_refuses hrefuses, hp]

theorem iterate {step : Production (Option α)} (h : Mute step) : Mute (iterate step) := by
  intro tokens
  induction hn : tokens.length using Nat.strongRecOn generalizing tokens with
  | ind n ih =>
      rcases houtcome : (step tokens).outcome with ⟨_ | a, rest⟩ | stuck | _
      · rw [iterate_eq_of_none houtcome, h]
      · by_cases hlt : rest.length < tokens.length
        · rw [iterate_eq_of_lt houtcome hlt, Reading.after, Reading.map, h,
            ih rest.length (hn ▸ hlt) rest rfl]
          rfl
        · rw [iterate_eq_of_not_lt houtcome hlt, h]
      · rw [iterate_eq_of_noMatch houtcome, h]
      · rw [iterate_eq_of_tooDeep houtcome, h]

theorem token (accept : Token → Bool) : Mute (token accept) := by
  intro tokens
  cases tokens <;> rfl

theorem congruence : Congruence fun _ p _ => Mute p where
  pure := fun _ _ => rfl
  fail := fun _ => rfl
  token := fun _ => token _
  insignificant := fun _ => rfl
  bind := bind
  orElse := orElse
  iterate := iterate

theorem optional (hp : Mute p) : Mute (optional p) :=
  @Congruence.optional _ congruence _ p p hp

end Mute

/-! ## Productions that keep what they read -/

/-- Behind names that are kept before, what is matched adds up to the names `after` it, and
nothing is refused unless there are none. -/
structure Tells (before : List String) (after : α → List String) (p : Production α) : Prop where
  matched : ∀ {tokens a rest}, p.Matches tokens a rest → before ++ (p tokens).keptRaw = after a
  refused : ∀ {tokens}, p.Refuses tokens → before ++ (p tokens).keptRaw = []

namespace Tells

variable {before : List String} {middle after : α → List String} {last : β → List String}

theorem pure {a : α} (h : before = after a) : Tells before after (pure a) where
  matched := by
    intro tokens b rest hmatches
    obtain ⟨rfl, -⟩ := matches_pure_iff.1 hmatches
    rw [h]
    exact List.append_nil _
  refused := fun h => absurd h not_refuses_pure

theorem of_mute (h : Mute p) (hafter : ∀ a, after a = []) : Tells [] after p where
  matched := by
    intro tokens a rest _
    rw [h, hafter, List.append_nil]
  refused := by
    intro tokens _
    rw [h, List.append_nil]

theorem bind (hp : Tells before middle p) (hf : ∀ a, Tells (middle a) last (f a)) :
    Tells before last (p >>= f) where
  matched := by
    intro tokens b rest hmatches
    obtain ⟨a, rest', ha, hb⟩ := matches_bind_iff.1 hmatches
    rw [bind_eq_of_matched ha, Reading.after, ← List.append_assoc, hp.matched ha, (hf a).matched hb]
  refused := by
    intro tokens hrefuses
    rcases refuses_bind_iff.1 hrefuses with ⟨stuck, houtcome⟩ | ⟨a, rest', ha, hb⟩
    · rw [bind_eq_of_noMatch houtcome, hp.refused ⟨stuck, houtcome⟩]
    · rw [bind_eq_of_matched ha, Reading.after, ← List.append_assoc, hp.matched ha,
        (hf a).refused hb]

theorem map (hp : Tells before middle p) (g : α → β) (h : ∀ a, last (g a) = middle a) :
    Tells before last (g <$> p) := by
  rw [← bind_pure_eq_map]
  exact hp.bind fun a => pure (h a).symm

theorem orElse (hp : Tells [] after p) (hq : Tells [] after q) :
    Tells [] after (orElse p q) where
  matched := by
    intro tokens a rest hmatches
    rcases matches_orElse_iff.1 hmatches with ha | ⟨hrefuses, ha⟩
    · rw [orElse_eq_of_not_refuses ha.not_refuses, hp.matched ha]
    · have hmute := hp.refused hrefuses
      obtain ⟨stuck, houtcome⟩ := hrefuses
      rw [orElse_eq_of_noMatch houtcome, Reading.after, ← List.append_assoc, hmute, hq.matched ha]
  refused := by
    intro tokens hrefuses
    obtain ⟨hp', hq'⟩ := refuses_orElse_iff.1 hrefuses
    have hmute := hp.refused hp'
    obtain ⟨stuck, houtcome⟩ := hp'
    rw [orElse_eq_of_noMatch houtcome, Reading.after, ← List.append_assoc, hmute, hq.refused hq']

theorem firstOf {ps : List (Production α)} (h : ∀ p ∈ ps, Tells [] after p) :
    Tells [] after (firstOf ps) := by
  induction ps with
  | nil => exact ⟨fun h => absurd h not_matches_fail, fun _ => rfl⟩
  | cons p ps ih =>
      obtain ⟨hp, hps⟩ := List.forall_mem_cons.1 h
      exact hp.orElse (ih hps)

theorem optional (hp : Tells [] after p) :
    Tells [] (fun a : Option α => a.toList.flatMap after) (optional p) :=
  (hp.map some fun a => by simp).orElse (pure rfl)

theorem exists_rounds {step : Production (Option α)}
    (hstep : Tells [] (fun a => a.toList.flatMap after) step)
    (hdeep : ¬ (iterate step).Overflows tokens) :
    ∃ as middle, Rounds step tokens as middle ∧ (iterate step tokens).keptRaw = as.flatMap after ∧
      ∀ bs rest, (iterate step).Matches tokens bs rest → bs = as := by
  unfold Overflows at hdeep
  unfold Matches
  induction hn : tokens.length using Nat.strongRecOn generalizing tokens with
  | ind n ih =>
      rcases houtcome : (step tokens).outcome with ⟨_ | a, rest⟩ | stuck | _
      · have hkept : (step tokens).keptRaw = [] := hstep.matched houtcome
        refine ⟨[], tokens, .nil, ?_⟩
        rw [iterate_eq_of_none houtcome, hkept]
        refine ⟨rfl, ?_⟩
        rintro bs rest ⟨⟩
        rfl
      · have hkept : (step tokens).keptRaw = after a := by simpa using hstep.matched houtcome
        by_cases hlt : rest.length < tokens.length
        · have hrest : ¬ (iterate step).Overflows rest := fun h =>
            hdeep ((overflows_iterate_iff_of_lt houtcome hlt).2 h)
          obtain ⟨as, middle, hrounds, hkept', hmatches⟩ := ih rest.length (hn ▸ hlt) hrest rfl
          refine ⟨a :: as, middle, .cons houtcome hrounds, ?_, ?_⟩
          · rw [iterate_eq_of_lt houtcome hlt, Reading.after, Reading.map, hkept, hkept',
              List.flatMap_cons]
          · intro bs rest' h
            obtain ⟨cs, rfl, hcs⟩ := (matches_iterate_iff_of_lt houtcome hlt).1 h
            rw [hmatches cs rest' hcs]
        · refine ⟨[a], rest, .cons houtcome .nil, ?_⟩
          rw [iterate_eq_of_not_lt houtcome hlt, hkept]
          refine ⟨by simp, ?_⟩
          rintro bs rest' ⟨⟩
          rfl
      · have hkept : (step tokens).keptRaw = [] := hstep.refused ⟨stuck, houtcome⟩
        refine ⟨[], tokens, .nil, ?_⟩
        rw [iterate_eq_of_noMatch houtcome, hkept]
        exact ⟨rfl, by simp⟩
      · rw [iterate_eq_of_tooDeep houtcome] at hdeep
        exact absurd rfl hdeep

theorem many (hp : Tells [] after p) :
    Tells before (fun as => before ++ as.flatMap after) (many p) where
  matched := by
    intro tokens as rest hmatches
    obtain ⟨_, _, -, hkept, has⟩ := hp.optional.exists_rounds hmatches.not_overflows
    rw [has as rest hmatches]
    exact congrArg (before ++ ·) hkept
  refused := fun h => absurd h not_refuses_many

end Tells

end Production

namespace Grammar

open Production

variable {g : Grammar}

/-! ## Selectors -/

def keptIn (g : Grammar) (function : Token) : List String :=
  (g.arguments function []).keptRaw

def keptInAll (g : Grammar) (calls : List (Token × Arguments)) : List String :=
  calls.flatMap fun call => g.keptIn call.1

/-- What the arguments of a function keep does not depend on what follows the function. -/
def KeepsAlone (g : Grammar) : Prop :=
  ∀ function rest, (g.arguments function rest).keptRaw = g.keptIn function

@[simp] theorem keptInAll_nil (g : Grammar) : g.keptInAll [] = [] := rfl

@[simp] theorem keptInAll_append (g : Grammar) (left right : List (Token × Arguments)) :
    g.keptInAll (left ++ right) = g.keptInAll left ++ g.keptInAll right :=
  List.flatMap_append

theorem keptInAll_flatMap {α : Type} (g : Grammar) (as : List α)
    (calls : α → List (Token × Arguments)) :
    g.keptInAll (as.flatMap calls) = as.flatMap fun a => g.keptInAll (calls a) :=
  List.flatMap_assoc

theorem keptRaw_bind_of_matched {α β : Type} {p : Production α} {f : α → Production β} {a : α}
    {tokens rest : List Token} (h : p.Matches tokens a rest) :
    ((p >>= f) tokens).keptRaw = (p tokens).keptRaw ++ (f a rest).keptRaw := by
  rw [bind_eq_of_matched h]
  rfl

theorem keptRaw_map {α β : Type} (p : Production α) (f : α → β) (tokens : List Token) :
    ((f <$> p) tokens).keptRaw = (p tokens).keptRaw := rfl

theorem calls_ofLinks (first : Compound) (links : List (Combinator × Compound)) :
    (Complex.ofLinks first links).calls =
      first.calls ++ links.flatMap fun link => link.2.calls := by
  rw [Complex.calls, Complex.compounds_ofLinks, List.flatMap_cons, List.flatMap_map]

theorem tells_ofParts (selector : Option TypeSelector) (parts : List Subclass)
    (elements : List PseudoElement) :
    Tells (g.keptInAll (parts.flatMap Subclass.calls ++ elements.flatMap PseudoElement.calls))
      (fun c => g.keptInAll c.calls) (ofParts selector parts elements) := by
  unfold ofParts
  split
  · rename_i c hparts
    unfold Compound.ofParts? at hparts
    split at hparts <;> cases hparts
    exact .pure rfl
  · -- there is no compound without a part, and then nothing was kept
    rename_i hparts
    have hnil : parts = [] ∧ elements = [] := by
      unfold Compound.ofParts? at hparts
      split at hparts
      · rename_i h
        simp_all
      · cases hparts
    obtain ⟨rfl, rfl⟩ := hnil
    exact ⟨fun h => absurd h not_matches_fail, fun _ => rfl⟩

theorem Sealed.not_refuses (hg : g.Sealed) (function : Token) (tokens : List Token) :
    ¬ (g.arguments function).Refuses tokens := by
  rintro ⟨stuck, houtcome⟩
  rcases hg function with ⟨arguments, hyields⟩ | hdeep
  · exact (hyields tokens).not_refuses ⟨stuck, houtcome⟩
  · rw [show _ = Outcome.tooDeep from hdeep tokens] at houtcome
    cases houtcome

section Functions

variable (hg : g.Sealed) (hkept : g.KeepsAlone)
include hg hkept

theorem tells_functionCall : Tells [] (fun c => g.keptInAll c.calls) (functionCall g) := by
  refine Tells.bind (Tells.of_mute (.token _) fun _ => rfl) fun function => ?_
  have harguments : Tells [] (fun _ => g.keptIn function) (g.arguments function) :=
    ⟨fun _ => hkept function _, fun hrefuses => absurd hrefuses (hg.not_refuses function _)⟩
  exact harguments.bind fun arguments => .pure (by simp [PseudoClass.calls, keptInAll])

theorem tells_pseudoClass : Tells [] (fun c => g.keptInAll c.calls) (pseudoClass g) := by
  rw [pseudoClass_eq]
  refine Tells.bind (Tells.of_mute (.token _) fun _ => rfl) fun _ => Tells.firstOf ?_
  have hplain : Tells [] (fun c : PseudoClass => g.keptInAll c.calls)
      (PseudoClass.plain <$> token Token.isIdent) :=
    (Tells.of_mute (.token _) fun _ => rfl).map _ fun _ => rfl
  simp [hplain, tells_functionCall hg hkept]

theorem tells_pseudoElement : Tells [] (fun e => g.keptInAll e.calls) (pseudoElement g) := by
  have hclass := tells_pseudoClass hg hkept
  refine Tells.bind (Tells.of_mute (.token _) fun _ => rfl) fun _ => hclass.bind fun element => ?_
  refine hclass.many.bind fun pseudoClasses => .pure ?_
  simp [PseudoElement.calls, keptInAll_flatMap]

theorem tells_subclass : Tells [] (fun c => g.keptInAll c.calls) (subclass g) := by
  have hmute {α : Type} {p : Production α} (h : Mute p) (f : α → Subclass)
      (hf : ∀ a, (f a).calls = []) : Tells [] (fun c => g.keptInAll c.calls) (f <$> p) :=
    (Tells.of_mute h fun _ => rfl).map f fun a => by rw [hf]; rfl
  have hname : Mute classSelector := Mute.bind (.token _) fun _ => .token _
  apply Tells.firstOf
  simp only [List.forall_mem_cons, List.not_mem_nil, false_implies, implies_true, and_true]
  exact ⟨hmute (.token _) _ fun _ => rfl, hmute hname _ fun _ => rfl,
    hmute Mute.congruence.attributeSelector _ fun _ => rfl,
    (tells_pseudoClass hg hkept).map _ fun _ => rfl⟩

theorem tells_compound : Tells [] (fun c => g.keptInAll c.calls) (compound g) := by
  rw [compound_eq]
  have htype : Mute (optional (typeSelector g.dialect)) :=
    Mute.optional Mute.congruence.typeSelector
  refine Tells.bind (Tells.of_mute htype fun _ => rfl) fun selector => ?_
  refine (tells_subclass hg hkept).many.bind fun parts => ?_
  refine (tells_pseudoElement hg hkept).many.bind fun elements => ?_
  simpa [keptInAll_flatMap] using tells_ofParts (g := g) selector parts elements

theorem tells_complexSelector : Tells [] (fun c => g.keptInAll c.calls) (complexSelector g) := by
  have hcompound := tells_compound hg hkept
  have hlink : Tells [] (fun link => g.keptInAll link.2.calls) (link g) :=
    Tells.bind (Tells.of_mute Mute.congruence.combinator fun _ => rfl) fun _ =>
      hcompound.bind fun _ => .pure rfl
  refine hcompound.bind fun first => hlink.many.bind fun links => .pure ?_
  rw [calls_ofLinks, keptInAll_append, keptInAll_flatMap]

theorem tells_selector : Tells [] (fun s => g.keptInAll s.calls) (selector g) := by
  have hchain := tells_complexSelector hg hkept
  have hcombinator : Mute (optional (combinator g.dialect)) :=
    Mute.optional Mute.congruence.combinator
  have hrelative : Tells [] (fun s => g.keptInAll s.calls) (relativeSelector g) :=
    Tells.bind (Tells.of_mute hcombinator fun _ => rfl) fun _ => hchain.bind fun _ => .pure rfl
  have hcomplex : Tells [] (fun s => g.keptInAll s.calls)
      (Selector.complex <$> complexSelector g) := hchain.map _ fun _ => rfl
  exact Tells.firstOf (by simp [hrelative, hcomplex])

theorem tells_nextItem :
    Tells [] (fun s => s.toList.flatMap fun s => g.keptInAll s.calls)
      (nextItem (selector g)) := by
  have hcomma : Mute comma := Mute.bind Mute.congruence.skip fun _ => .token _
  refine Tells.bind (Tells.of_mute hcomma.optional fun _ => rfl) fun item => ?_
  cases item with
  | none => exact .pure rfl
  | some _ =>
      refine Tells.bind (Tells.of_mute Mute.congruence.skip fun _ => rfl) fun _ => ?_
      exact (tells_selector hg hkept).map some fun s => by simp

/-! ## Lists -/

/-- A list keeps what its selectors keep that were read, be they all of it or those before a bad
one. -/
theorem keptRaw_selectorList {tokens : List Token} (hsolid : Solid tokens)
    (hdeep : ¬ (selectorList g).Overflows tokens) :
    (selectorList g).Refuses tokens ∧ (selectorList g tokens).keptRaw = [] ∨
      ∃ items rest, g.Accepts items ∧ Spells (Selector.piecesOfItems .free items) tokens rest ∧
        (selectorList g tokens).keptRaw = g.keptInAll (Selector.callsOfList items) ∧
          ∀ list rest, (selectorList g).Matches tokens list rest → list = items := by
  have hselector := tells_selector hg hkept
  rw [selectorList_eq] at hdeep ⊢
  rcases matches_or_refuses_or_overflows (selector g) tokens with
    ⟨first, after, hfirst⟩ | hrefuses | hover
  · right
    have hrest : ¬ (iterate (nextItem (selector g))).Overflows after := fun hover =>
      hdeep (overflows_bind_iff.2 (.inr ⟨first, after, hfirst, overflows_bind_iff.2 (.inl hover)⟩))
    obtain ⟨others, rest, hrounds, hothers, hsame⟩ := (tells_nextItem hg hkept).exists_rounds hrest
    obtain ⟨hwell, hyields, hspells⟩ := spells_of_matches_selector hg hsolid hfirst
    obtain ⟨hall, htail⟩ := spells_of_rounds hg hrounds
    refine ⟨first :: others, rest, accepts_cons_iff.2 ⟨⟨hwell, hyields⟩, hall⟩,
      hspells.append htail, ?_, ?_⟩
    · rw [keptRaw_bind_of_matched hfirst, show (selector g tokens).keptRaw = _ from
        hselector.matched hfirst, bind_pure_eq_map, keptRaw_map, hothers, Selector.callsOfList,
        List.flatMap_cons, keptInAll_append, keptInAll_flatMap]
    · intro list rest' hmatches
      simp only [matches_bind_iff, matches_pure_iff] at hmatches
      obtain ⟨_, _, hfirst', others', _, hothers', rfl, rfl⟩ := hmatches
      obtain ⟨rfl, rfl⟩ := hfirst.unique hfirst'
      rw [hsame _ _ hothers']
  · left
    refine ⟨refuses_bind_iff.2 (.inl hrefuses), ?_⟩
    have hmute := hselector.refused hrefuses
    obtain ⟨stuck, houtcome⟩ := hrefuses
    rw [bind_eq_of_noMatch houtcome]
    exact hmute
  · exact absurd (overflows_bind_iff.2 (.inl hover)) hdeep

theorem keptRaw_wholeList {tokens : List Token} (hdeep : ¬ (wholeList g).Overflows tokens) :
    (wholeList g).Refuses tokens ∧ (wholeList g tokens).keptRaw = [] ∨
      ∃ items rest, g.Accepts items ∧
        Spells ([.gap false] ++ Selector.piecesOfItems .free items) tokens rest ∧
          (wholeList g tokens).keptRaw = g.keptInAll (Selector.callsOfList items) ∧
            ∀ list rest, (wholeList g).Matches tokens list rest → list = items := by
  have hskip : skip.Matches tokens () (tokens.dropWhile Token.isInsignificant) :=
    matches_skip_iff.2 rfl
  have hlist : (wholeList g tokens).keptRaw =
      (selectorList g (tokens.dropWhile Token.isInsignificant)).keptRaw := by
    rw [wholeList, keptRaw_bind_of_matched hskip, Mute.congruence.skip]
    rfl
  rw [hlist]
  rcases keptRaw_selectorList hg hkept solid_dropWhile fun hover =>
    hdeep (overflows_bind_iff.2 (.inr ⟨(), _, hskip, hover⟩)) with
    ⟨hrefuses, hmute⟩ | ⟨items, rest, hitems, hspells, hkeeps, hsame⟩
  · exact .inl ⟨refuses_bind_iff.2 (.inr ⟨(), _, hskip, hrefuses⟩), hmute⟩
  · refine .inr ⟨items, rest, hitems, spells_gap_dropWhile.append hspells, hkeeps, ?_⟩
    intro list rest' hmatches
    obtain ⟨_, _, hskip', hmatches⟩ := matches_bind_iff.1 hmatches
    obtain ⟨-, rfl⟩ := hskip.unique hskip'
    exact hsame list rest' hmatches

end Functions

/-! ## Arguments -/

theorem keptRaw_readNested (inner : Grammar) (name : String) (ts rest : List Token) :
    (readNested inner name ts rest).keptRaw =
      match (readNested inner name ts rest).outcome with
      | .matched (.selectors _) _ => (wholeList inner ts).keptRaw
      | .matched (.raw _) _ => (wholeList inner ts).keptRaw ++ [name]
      | .matched _ _ => []
      | _ => (wholeList inner ts).keptRaw := by
  unfold readNested
  rcases (anPlusB ts).outcome with ⟨value, leftover⟩ | stuck | _
  · rfl
  all_goals
    cases hlist : (wholeList inner ts).outcome with
    | matched list leftover => by_cases hend : Token.atEnd leftover = true <;> simp [hlist, hend]
    | noMatch stuck => simp [hlist]
    | tooDeep => simp [hlist]

theorem keepsAlone_ofLevels (dialect : Dialect) (levels : Nat) :
    (ofLevels dialect levels).KeepsAlone := by
  intro function rest
  simp only [keptIn, ofLevels]
  by_cases hnil : argumentTokens function = []
  · rw [readArguments_of_nil hnil]
    rfl
  · cases levels with
    | zero => rw [readArguments_zero hnil]
    | succ levels =>
        rw [readArguments_succ hnil, keptRaw_readNested, keptRaw_readNested]
        rcases readNested_cases (ofLevels dialect levels) (function.functionName?.getD "")
          (argumentTokens function) with ⟨arguments, -, hmatches⟩ | ⟨-, hdeep⟩
        · rw [show _ = _ from hmatches rest, show _ = _ from hmatches []]
          cases arguments <;> rfl
        · rw [show _ = _ from hdeep rest, show _ = _ from hdeep []]

end Grammar

/-! ## Results -/

variable {options : Options} {tokens : List Token} {list : List Selector}

theorem keptRaw_of_ok (h : parseTokens options tokens = .ok list) :
    (readTokens options tokens).keptRaw =
      (Grammar.ofLevels options.dialect options.maxDepth).keptInAll
        (Selector.callsOfList list) := by
  obtain ⟨rest, hmatches, -⟩ := parseTokens_eq_ok_iff_matches.1 h
  rcases Grammar.keptRaw_wholeList (Grammar.sealed_ofLevels _ _) (Grammar.keepsAlone_ofLevels _ _)
    hmatches.not_overflows with ⟨hrefuses, -⟩ | ⟨items, _, -, -, hkept, hsame⟩
  · exact absurd hrefuses hmatches.not_refuses
  · rw [hsame list rest hmatches]
    exact hkept

/-- What malformed tokens keep is what a list keeps that some of them form from the first on. -/
theorem exists_front_of_mem_keptRaw (h : IsMalformed options tokens) {name : String}
    (hname : name ∈ (readTokens options tokens).keptRaw) :
    ∃ front items, front <+: tokens ∧ parseTokens options front = .ok items ∧
      name ∈ (readTokens options front).keptRaw := by
  have hdeep : ¬ (Grammar.ofLevels options.dialect options.maxDepth).wholeList.Overflows tokens :=
    fun hover => (isMalformed_iff.1 h).2 (parseTokens_eq_tooDeep_iff.2 ⟨hover, rfl⟩)
  rcases Grammar.keptRaw_wholeList (Grammar.sealed_ofLevels _ _) (Grammar.keepsAlone_ofLevels _ _)
    hdeep with ⟨-, hmute⟩ | ⟨items, rest, hitems, hspells, hkept, -⟩
  · rw [show (readTokens options tokens).keptRaw = [] from hmute] at hname
    cases hname
  · obtain ⟨front, rfl, hfront⟩ := spells_iff_exists_taken.1 hspells
    have hlist : Spells (Selector.piecesOfList .free items) front [] :=
      spells_piecesOfList_iff.2 ⟨[], hfront, spells_gap_self⟩
    have hok : parseTokens options front = .ok items := by
      rw [parseTokens_eq_ok_iff, Token.beforeEof_of_spells hitems.wellFormed hlist]
      exact ⟨hitems, hlist⟩
    refine ⟨front, items, List.prefix_append _ _, hok, ?_⟩
    rw [keptRaw_of_ok hok, ← hkept]
    exact hname

end CssSelectors
