import CssSelectors.Proofs.Reading.Arguments

/-!
# Proper tokens

Selectors are made of tokens that are neither blank text nor the end of the text. Within a
compound, every gap stands directly before such a token, so that the token behind a gap
says how far the gap reaches.
-/

namespace CssSelectors

open Production

/-! ## Pieces of proper tokens -/

namespace Grammar

/-- Neither blank text nor the end of the text is accepted. -/
def Proper (accept : Token → Bool) : Prop :=
  ∀ t, accept t = true → t.isInsignificant = false ∧ t.isEof = false

theorem proper_of_apply {accept : Token → Bool}
    (h : ∀ span, accept (.atom .whitespace span) = false ∧
      (∀ text, accept (.atom (.comment text) span) = false) ∧ accept (.atom .eof span) = false) :
    Proper accept := by
  intro t ht
  match t with
  | .function _ _ _ => exact ⟨rfl, rfl⟩
  | .atom a span =>
      obtain ⟨hwhitespace, hcomment, heof⟩ := h span
      cases a <;> simp_all [Token.isInsignificant, Token.isEof]

theorem proper_isDelim (c : Char) : Proper (Token.isDelim c) :=
  proper_of_apply fun _ => ⟨rfl, fun _ => rfl, rfl⟩

theorem proper_ident (accept : String → Bool) : Proper fun t => t.ident?.any accept :=
  proper_of_apply fun _ => ⟨rfl, fun _ => rfl, rfl⟩

theorem proper_isIdent : Proper Token.isIdent :=
  proper_of_apply fun _ => ⟨rfl, fun _ => rfl, rfl⟩

theorem proper_isAtKeyword : Proper Token.isAtKeyword :=
  proper_of_apply fun _ => ⟨rfl, fun _ => rfl, rfl⟩

theorem proper_isFunction : Proper Token.isFunction :=
  proper_of_apply fun _ => ⟨rfl, fun _ => rfl, rfl⟩

end Grammar

/-- The piece is spelled by one token, which is neither blank nor the end of the text. -/
def Piece.IsProper : Piece → Prop
  | .stored t => t.isInsignificant = false ∧ t.isEof = false
  | .mark a => ∀ span, (Token.atom a span).isInsignificant = false ∧
      (Token.atom a span).isEof = false
  | .gap _ => False

def Gapless (pieces : List Piece) : Prop :=
  ∀ piece ∈ pieces, piece.IsProper

/-- Pieces of proper tokens, with gaps only directly before tokens. -/
inductive Anchored : List Piece → Prop
  | nil : Anchored []
  | token {piece : Piece} {pieces : List Piece} (proper : piece.IsProper)
      (rest : Anchored pieces) : Anchored (piece :: pieces)
  | gap {needed : Bool} {piece : Piece} {pieces : List Piece} (proper : piece.IsProper)
      (rest : Anchored pieces) : Anchored (.gap needed :: piece :: pieces)

section Pieces

variable {piece : Piece} {pieces left right : List Piece} {tokens rest : List Token}

theorem Piece.IsProper.exists_token (hpiece : piece.IsProper) (h : Spells [piece] tokens rest) :
    ∃ t, tokens = t :: rest ∧ t.isInsignificant = false ∧
      ∀ behind, Spells [piece] (t :: behind) behind := by
  match piece with
  | .stored t =>
      obtain ⟨_, rfl, rfl⟩ := h
      exact ⟨t, rfl, hpiece.1, fun behind => ⟨behind, rfl, rfl⟩⟩
  | .mark a =>
      obtain ⟨span, _, rfl, rfl⟩ := h
      exact ⟨.atom a span, rfl, (hpiece span).1, fun behind => ⟨span, behind, rfl, rfl⟩⟩

@[simp] theorem gapless_nil : Gapless [] := by
  simp [Gapless]

@[simp] theorem gapless_cons_iff : Gapless (piece :: pieces) ↔ piece.IsProper ∧ Gapless pieces :=
  List.forall_mem_cons

@[simp] theorem gapless_append_iff : Gapless (left ++ right) ↔ Gapless left ∧ Gapless right :=
  List.forall_mem_append

theorem gapless_flatMap {α : Type} {f : α → List Piece} {as : List α}
    (h : ∀ a ∈ as, Gapless (f a)) : Gapless (as.flatMap f) := by
  intro piece hpiece
  obtain ⟨a, ha, hpiece⟩ := List.mem_flatMap.1 hpiece
  exact h a ha piece hpiece

theorem Gapless.anchored_append (h : Gapless left) (hright : Anchored right) :
    Anchored (left ++ right) := by
  induction left with
  | nil => exact hright
  | cons piece pieces ih =>
      obtain ⟨hpiece, hpieces⟩ := gapless_cons_iff.1 h
      exact .token hpiece (ih hpieces)

theorem Gapless.anchored (h : Gapless pieces) : Anchored pieces := by
  have hnil := h.anchored_append .nil
  rwa [List.append_nil] at hnil

theorem Gapless.anchored_gap (h : Gapless left) (hne : left ≠ []) (needed : Bool)
    (hright : Anchored right) : Anchored (.gap needed :: (left ++ right)) := by
  obtain ⟨piece, pieces, rfl⟩ := List.exists_cons_of_ne_nil hne
  obtain ⟨hpiece, hpieces⟩ := gapless_cons_iff.1 h
  exact .gap hpiece (hpieces.anchored_append hright)

theorem Anchored.append (hleft : Anchored left) (hright : Anchored right) :
    Anchored (left ++ right) := by
  induction hleft with
  | nil => exact hright
  | token hpiece _ ih => exact .token hpiece ih
  | gap hpiece _ ih => exact .gap hpiece ih

theorem anchored_flatMap {α : Type} {f : α → List Piece} {as : List α}
    (h : ∀ a ∈ as, Anchored (f a)) : Anchored (as.flatMap f) := by
  induction as with
  | nil => exact .nil
  | cons a as ih =>
      obtain ⟨ha, has⟩ := List.forall_mem_cons.1 h
      exact ha.append (ih has)

theorem Production.Spelled.gapless {symbol : List Char} (h : Spelled symbol tokens) :
    Gapless (tokens.map .stored) := by
  intro piece hpiece
  obtain ⟨t, ht, rfl⟩ := List.mem_map.1 hpiece
  obtain ⟨c, -, hc⟩ := h.exists_mem t ht
  exact Grammar.proper_isDelim c t hc

end Pieces

/-! ## Compounds -/

section WellFormed

open Grammar

variable {dialect : Dialect}

theorem NsPrefix.WellFormed.gapless {ns : NsPrefix} (h : ns.WellFormed) : Gapless ns.pieces := by
  have hvalue : Gapless (ns.value.toList.map .stored) := by
    intro piece hpiece
    obtain ⟨t, ht, rfl⟩ := List.mem_map.1 hpiece
    rcases h t (Option.mem_toList.1 ht) with ht | ht
    · exact proper_isIdent t ht
    · exact proper_isDelim '*' t ht
  exact gapless_append_iff.2 ⟨hvalue, by simp [Piece.IsProper, Token.isInsignificant, Token.isEof]⟩

theorem gapless_namespace {ns : Option NsPrefix} (h : ∀ p ∈ ns, p.WellFormed) :
    Gapless (ns.toList.flatMap NsPrefix.pieces) :=
  gapless_flatMap fun p hp => (h p (Option.mem_toList.1 hp)).gapless

theorem QualifiedName.WellFormed.gapless {name : QualifiedName} (h : name.WellFormed) :
    Gapless name.pieces := by
  have hname : (Piece.stored name.name).IsProper := proper_isIdent _ h.2
  simp [QualifiedName.pieces, gapless_namespace h.1, hname]

theorem TypeSelector.WellFormed.gapless {selector : TypeSelector}
    (h : selector.WellFormed dialect) : Gapless selector.pieces := by
  match selector with
  | .name qualified => exact QualifiedName.WellFormed.gapless h
  | .universal ns asterisk =>
      have hasterisk : (Piece.stored asterisk).IsProper := proper_isDelim '*' _ h.2
      simp [TypeSelector.pieces, gapless_namespace h.1, hasterisk]
  | .atKeyword t =>
      have ht : (Piece.stored t).IsProper := proper_isAtKeyword _ h.2
      simp [TypeSelector.pieces, ht]
  | .xpath t =>
      have hproper : Proper isStructuralFunction :=
        proper_of_apply fun _ => ⟨rfl, fun _ => rfl, rfl⟩
      have ht : (Piece.stored t).IsProper := hproper _ h.2
      simp [TypeSelector.pieces, ht]

theorem AttributeName.WellFormed.gapless {name : AttributeName} (h : name.WellFormed dialect) :
    Gapless name.pieces := by
  match name with
  | .qualified name => exact QualifiedName.WellFormed.gapless h
  | .atKeyword t =>
      have ht : (Piece.stored t).IsProper := proper_isAtKeyword _ h.2
      simp [AttributeName.pieces, ht]
  | .position t =>
      have hproper : Proper Grammar.isPosition := proper_of_apply fun _ => ⟨rfl, fun _ => rfl, rfl⟩
      have ht : (Piece.stored t).IsProper := hproper _ h.2
      simp [AttributeName.pieces, ht]
  | .xpath t =>
      have ht : (Piece.stored t).IsProper := proper_isFunction _ h.2
      simp [AttributeName.pieces, ht]

theorem AttributeName.pieces_ne_nil (name : AttributeName) : name.pieces ≠ [] := by
  match name with
  | .qualified name => simp [AttributeName.pieces, QualifiedName.pieces]
  | .atKeyword _ => simp [AttributeName.pieces]
  | .position _ => simp [AttributeName.pieces]
  | .xpath _ => simp [AttributeName.pieces]

theorem isProper_rightBracket : (Piece.mark .rightBracket).IsProper :=
  fun _ => ⟨rfl, rfl⟩

theorem AttributeTest.WellFormed.anchored {test : AttributeTest} (h : test.WellFormed dialect) :
    Anchored (.gap false :: (test.pieces .free ++ [.mark .rightBracket])) := by
  obtain ⟨⟨hmatcher, -⟩, hvalue, hmodifier⟩ := h
  have hvalue : (Piece.stored test.value).IsProper := by
    rcases hvalue with hvalue | hvalue | hvalue
    · exact proper_of_apply (fun _ => ⟨rfl, fun _ => rfl, rfl⟩) _ hvalue
    · exact proper_isIdent _ hvalue
    · exact proper_of_apply (fun _ => ⟨rfl, fun _ => rfl, rfl⟩) _ hvalue
  have hne : test.matcher.tokens.map Piece.stored ≠ [] := by
    rw [ne_eq, List.map_eq_nil_iff]
    rintro hnil
    rw [hnil] at hmatcher
    cases hkind : test.matcher.kind <;> rw [hkind] at hmatcher <;> cases hmatcher
  have hend : Anchored (.gap false :: (test.modifier.toList.flatMap (fun modifier =>
      [.stored modifier.token, .gap false]) ++ [.mark .rightBracket])) := by
    cases hm : test.modifier with
    | none => exact .gap isProper_rightBracket .nil
    | some modifier =>
        have htoken : (Piece.stored modifier.token).IsProper :=
          proper_isIdent _ (isIdent_of_wellFormed_modifier (hmodifier modifier hm))
        exact .gap htoken (.gap isProper_rightBracket .nil)
  rw [AttributeTest.pieces, List.append_assoc]
  exact hmatcher.gapless.anchored_gap hne false (.gap hvalue hend)

theorem AttributeSelector.WellFormed.anchored {selector : AttributeSelector}
    (h : selector.WellFormed dialect) : Anchored (selector.pieces .free) := by
  obtain ⟨hname, htest, -⟩ := h
  have hbehind : Anchored (.gap false :: (selector.test.toList.flatMap
      (AttributeTest.pieces .free) ++ [.mark .rightBracket])) := by
    cases ht : selector.test with
    | none => exact .gap isProper_rightBracket .nil
    | some test => simpa using (htest test ht).anchored
  have hinside := hname.gapless.anchored_gap selector.name.pieces_ne_nil false hbehind
  have hbracket : (Piece.mark .leftBracket).IsProper := fun _ => ⟨rfl, rfl⟩
  exact .token hbracket hinside

theorem PseudoClass.WellFormed.gapless {selector : PseudoClass} (h : selector.WellFormed) :
    Gapless selector.pieces := by
  have hcolon : (Piece.mark .colon).IsProper := fun _ => ⟨rfl, rfl⟩
  cases selector with
  | plain name =>
      have hname : (Piece.stored name).IsProper := proper_isIdent _ h
      simp [PseudoClass.pieces, hcolon, hname]
  | function t arguments =>
      have ht : (Piece.stored t).IsProper := proper_isFunction _ h
      simp [PseudoClass.pieces, hcolon, ht]

theorem PseudoElement.WellFormed.gapless {element : PseudoElement} (h : element.WellFormed) :
    Gapless element.pieces := by
  have hcolon : (Piece.mark .colon).IsProper := fun _ => ⟨rfl, rfl⟩
  have hothers : Gapless (element.pseudoClasses.flatMap PseudoClass.pieces) :=
    gapless_flatMap fun c hc => (h.2 c hc).gapless
  simp [PseudoElement.pieces, hcolon, h.1.gapless, hothers]

theorem Subclass.WellFormed.anchored {part : Subclass} (h : part.WellFormed dialect) :
    Anchored (part.pieces .free) := by
  match part with
  | .id t =>
      have ht : (Piece.stored t).IsProper :=
        proper_of_apply (fun _ => ⟨rfl, fun _ => rfl, rfl⟩) _ h
      exact .token ht .nil
  | .className name =>
      have hdot : (Piece.mark (.delim '.')).IsProper := fun _ => ⟨rfl, rfl⟩
      have hname : (Piece.stored name).IsProper := proper_isIdent _ h
      exact .token hdot (.token hname .nil)
  | .attribute selector => exact AttributeSelector.WellFormed.anchored h
  | .pseudoClass selector => exact (PseudoClass.WellFormed.gapless h).anchored

theorem Compound.WellFormed.anchored {compound : Compound} (h : compound.WellFormed dialect) :
    Anchored (compound.pieces .free) := by
  have htype : Gapless (compound.typeSelector.toList.flatMap TypeSelector.pieces) :=
    gapless_flatMap fun t ht => (h.typeSelector t (Option.mem_toList.1 ht)).gapless
  have hparts : Anchored (compound.subclasses.flatMap (Subclass.pieces .free)) :=
    anchored_flatMap fun p hp => Subclass.WellFormed.anchored (h.subclasses p hp)
  have helements : Gapless (compound.pseudoElements.flatMap PseudoElement.pieces) :=
    gapless_flatMap fun e he => (h.pseudoElements e he).gapless
  exact htype.anchored_append (hparts.append helements.anchored)

end WellFormed

end CssSelectors
