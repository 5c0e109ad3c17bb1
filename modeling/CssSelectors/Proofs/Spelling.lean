import CssSelectors.Proofs.Matching

/-!
# Spelling

What selectors look like as tokens is given by pieces: tokens that the tree holds,
punctuation that it does not, and gaps for whitespace and comments. The pieces are
spelled by all token lists that have them in order.
-/

namespace CssSelectors

inductive Piece
  /-- A token that the tree holds. -/
  | stored (token : Token)
  /-- Punctuation of which the tree holds nothing. -/
  | mark (atom : Atom)
  /-- Whitespace and comments, and at least one of them where they are `needed`. -/
  | gap (needed : Bool)

/-- The pieces stand at the front of the tokens, and `rest` follows them. -/
def Spells : List Piece → List Token → List Token → Prop
  | [], tokens, rest => tokens = rest
  | .stored t :: pieces, tokens, rest =>
    ∃ middle, tokens = t :: middle ∧ Spells pieces middle rest
  | .mark a :: pieces, tokens, rest =>
    ∃ span middle, tokens = .atom a span :: middle ∧ Spells pieces middle rest
  | .gap needed :: pieces, tokens, rest =>
    ∃ blank middle, tokens = blank ++ middle ∧ (∀ t ∈ blank, t.isInsignificant = true) ∧
      (needed = true → blank ≠ []) ∧ Spells pieces middle rest

variable {pieces left right : List Piece} {tokens middle rest : List Token}

@[simp] theorem spells_nil_iff : Spells [] tokens rest ↔ tokens = rest := Iff.rfl

@[simp] theorem spells_stored_iff {t : Token} :
    Spells (.stored t :: pieces) tokens rest ↔
      ∃ middle, tokens = t :: middle ∧ Spells pieces middle rest := Iff.rfl

@[simp] theorem spells_mark_iff {a : Atom} :
    Spells (.mark a :: pieces) tokens rest ↔
      ∃ span middle, tokens = .atom a span :: middle ∧ Spells pieces middle rest := Iff.rfl

theorem spells_gap_iff {needed : Bool} :
    Spells (.gap needed :: pieces) tokens rest ↔
      ∃ blank middle, tokens = blank ++ middle ∧ (∀ t ∈ blank, t.isInsignificant = true) ∧
        (needed = true → blank ≠ []) ∧ Spells pieces middle rest := Iff.rfl

theorem spells_cons_iff {piece : Piece} :
    Spells (piece :: pieces) tokens rest ↔
      ∃ middle, Spells [piece] tokens middle ∧ Spells pieces middle rest := by
  cases piece <;> simp only [Spells] <;> grind

@[simp] theorem spells_append_iff :
    Spells (left ++ right) tokens rest ↔
      ∃ middle, Spells left tokens middle ∧ Spells right middle rest := by
  induction left generalizing tokens with
  | nil => simp
  | cons piece pieces ih =>
      rw [List.cons_append, spells_cons_iff]
      constructor
      · rintro ⟨m, hpiece, hrest⟩
        obtain ⟨m', hpieces, hright⟩ := ih.1 hrest
        exact ⟨m', spells_cons_iff.2 ⟨m, hpiece, hpieces⟩, hright⟩
      · rintro ⟨m', hleft, hright⟩
        obtain ⟨m, hpiece, hpieces⟩ := spells_cons_iff.1 hleft
        exact ⟨m, hpiece, ih.2 ⟨m', hpieces, hright⟩⟩

theorem Spells.append (hleft : Spells left tokens middle) (hright : Spells right middle rest) :
    Spells (left ++ right) tokens rest :=
  spells_append_iff.2 ⟨middle, hleft, hright⟩

theorem spells_map_stored_iff {stored : List Token} :
    Spells (stored.map .stored) tokens rest ↔ tokens = stored ++ rest := by
  induction stored generalizing tokens with
  | nil => simp
  | cons t ts ih => simp [ih]

theorem spells_iff_exists_taken :
    Spells pieces tokens rest ↔ ∃ taken, tokens = taken ++ rest ∧ Spells pieces taken [] := by
  induction pieces generalizing tokens with
  | nil => simp
  | cons piece pieces ih =>
      cases piece with
      | stored t =>
          simp only [spells_stored_iff]
          constructor
          · rintro ⟨middle, rfl, h⟩
            obtain ⟨taken, rfl, htaken⟩ := ih.1 h
            exact ⟨t :: taken, rfl, taken, rfl, htaken⟩
          · rintro ⟨_, rfl, taken, rfl, h⟩
            exact ⟨taken ++ rest, rfl, ih.2 ⟨taken, rfl, h⟩⟩
      | mark a =>
          simp only [spells_mark_iff]
          constructor
          · rintro ⟨span, middle, rfl, h⟩
            obtain ⟨taken, rfl, htaken⟩ := ih.1 h
            exact ⟨.atom a span :: taken, rfl, span, taken, rfl, htaken⟩
          · rintro ⟨_, rfl, span, taken, rfl, h⟩
            exact ⟨span, taken ++ rest, rfl, ih.2 ⟨taken, rfl, h⟩⟩
      | gap needed =>
          simp only [spells_gap_iff]
          constructor
          · rintro ⟨blank, middle, rfl, hblank, hneeded, h⟩
            obtain ⟨taken, rfl, htaken⟩ := ih.1 h
            exact ⟨blank ++ taken, (List.append_assoc ..).symm, blank, taken, rfl, hblank,
              hneeded, htaken⟩
          · rintro ⟨_, rfl, blank, taken, rfl, hblank, hneeded, h⟩
            exact ⟨blank, taken ++ rest, List.append_assoc .., hblank, hneeded,
              ih.2 ⟨taken, rfl, h⟩⟩

theorem Spells.mem_of_stored {t : Token} (h : Spells pieces tokens rest)
    (ht : .stored t ∈ pieces) : t ∈ tokens := by
  obtain ⟨before, behind, rfl⟩ := List.append_of_mem ht
  obtain ⟨middle, hbefore, after, rfl, -⟩ := spells_append_iff.1 h
  obtain ⟨taken, rfl, -⟩ := spells_iff_exists_taken.1 hbefore
  simp

theorem Spells.append_tokens (h : Spells pieces tokens rest) (behind : List Token) :
    Spells pieces (tokens ++ behind) (rest ++ behind) := by
  obtain ⟨taken, rfl, htaken⟩ := spells_iff_exists_taken.1 h
  rw [List.append_assoc]
  exact spells_iff_exists_taken.2 ⟨taken, rfl, htaken⟩

/-- The pieces that are no gaps take one token each. -/
def Piece.isToken : Piece → Bool
  | .gap _ => false
  | _ => true

theorem Spells.length_le (h : Spells pieces tokens rest) :
    rest.length + pieces.countP Piece.isToken ≤ tokens.length := by
  induction pieces generalizing tokens with
  | nil =>
      obtain rfl := h
      simp
  | cons piece pieces ih =>
      cases piece with
      | stored t =>
          obtain ⟨middle, rfl, h⟩ := h
          have := ih h
          simp only [List.countP_cons, Piece.isToken, if_true, List.length_cons]
          omega
      | mark a =>
          obtain ⟨span, middle, rfl, h⟩ := h
          have := ih h
          simp only [List.countP_cons, Piece.isToken, if_true, List.length_cons]
          omega
      | gap needed =>
          obtain ⟨blank, middle, rfl, -, -, h⟩ := h
          have := ih h
          simp only [List.countP_cons, Piece.isToken, List.length_append]
          simp only [Bool.false_eq_true, if_false]
          omega

/-! ## Classes of tokens -/

namespace Token

variable {t : Token}

theorem isDelim_iff {c : Char} : t.isDelim c = true ↔ ∃ span, t = .atom (.delim c) span := by
  cases t with
  | atom a span => cases a <;> simp [isDelim]
  | function name arguments span => simp [isDelim]

theorem isColon_iff : t.isColon = true ↔ ∃ span, t = .atom .colon span := by
  cases t with
  | atom a span => cases a <;> simp [isColon]
  | function name arguments span => simp [isColon]

theorem isComma_iff : t.isComma = true ↔ ∃ span, t = .atom .comma span := by
  cases t with
  | atom a span => cases a <;> simp [isComma]
  | function name arguments span => simp [isComma]

theorem isLeftBracket_iff : t.isLeftBracket = true ↔ ∃ span, t = .atom .leftBracket span := by
  cases t with
  | atom a span => cases a <;> simp [isLeftBracket]
  | function name arguments span => simp [isLeftBracket]

theorem isRightBracket_iff :
    t.isRightBracket = true ↔ ∃ span, t = .atom .rightBracket span := by
  cases t with
  | atom a span => cases a <;> simp [isRightBracket]
  | function name arguments span => simp [isRightBracket]

theorem isEof_iff : t.isEof = true ↔ ∃ span, t = .atom .eof span := by
  cases t with
  | atom a span => cases a <;> simp [isEof]
  | function name arguments span => simp [isEof]

theorem isIdent_iff : t.isIdent = true ↔ ∃ value span, t = .atom (.ident value) span := by
  cases t with
  | atom a span => cases a <;> simp [isIdent]
  | function name arguments span => simp [isIdent]

theorem isAtKeyword_iff :
    t.isAtKeyword = true ↔ ∃ value span, t = .atom (.atKeyword value) span := by
  cases t with
  | atom a span => cases a <;> simp [isAtKeyword]
  | function name arguments span => simp [isAtKeyword]

theorem isHash_iff : t.isHash = true ↔ ∃ value kind span, t = .atom (.hash value kind) span := by
  cases t with
  | atom a span => cases a <;> simp [isHash]
  | function name arguments span => simp [isHash]

theorem isFunction_iff :
    t.isFunction = true ↔ ∃ name arguments span, t = .function name arguments span := by
  cases t <;> simp [isFunction]

end Token

/-! ## Blank text -/

def Solid (tokens : List Token) : Prop :=
  tokens.dropWhile Token.isInsignificant = tokens

@[simp] theorem solid_nil : Solid [] := rfl

@[simp] theorem solid_cons_iff {t : Token} :
    Solid (t :: tokens) ↔ t.isInsignificant = false := by
  unfold Solid
  cases h : t.isInsignificant
  · simp [h]
  · simp only [List.dropWhile_cons, h, if_true, reduceCtorEq, iff_false]
    intro heq
    have := congrArg List.length heq
    have := (List.dropWhile_suffix (l := tokens) Token.isInsignificant).length_le
    simp at *
    omega

theorem solid_dropWhile : Solid (tokens.dropWhile Token.isInsignificant) := by
  induction tokens with
  | nil => rfl
  | cons t ts ih =>
      cases h : t.isInsignificant
      · simp [h]
      · simpa [h] using ih

theorem dropWhile_append_of_solid {blank : List Token}
    (hblank : ∀ t ∈ blank, t.isInsignificant = true) (h : Solid rest) :
    (blank ++ rest).dropWhile Token.isInsignificant = rest := by
  rw [List.dropWhile_append_of_pos hblank]
  exact h

theorem takeWhile_append_of_solid {blank : List Token}
    (hblank : ∀ t ∈ blank, t.isInsignificant = true) (h : Solid rest) :
    (blank ++ rest).takeWhile Token.isInsignificant = blank := by
  rw [List.takeWhile_append_of_pos hblank]
  cases rest with
  | nil => simp
  | cons t ts =>
      rw [solid_cons_iff] at h
      simp [h]

theorem all_insignificant_takeWhile :
    ∀ t ∈ tokens.takeWhile Token.isInsignificant, t.isInsignificant = true := by
  exact List.all_eq_true.1 List.all_takeWhile

theorem Solid.eq_of_spells_gap {needed : Bool} (h : Solid tokens)
    (hgap : Spells [.gap needed] tokens rest) : tokens = rest := by
  obtain ⟨blank, middle, rfl, hblank, -, rfl⟩ := hgap
  cases blank with
  | nil => rfl
  | cons t ts =>
      have ht := hblank t List.mem_cons_self
      rw [List.cons_append, solid_cons_iff, ht] at h
      cases h

theorem Production.Spelled.solid_append {symbol : List Char} (h : Production.Spelled symbol tokens)
    (hne : symbol ≠ []) : Solid (tokens ++ rest) := by
  obtain ⟨c, cs, rfl⟩ := List.exists_cons_of_ne_nil hne
  obtain ⟨t, ts, ht, -, rfl⟩ := List.forall₂_cons_left_iff.1 h
  obtain ⟨span, rfl⟩ := Token.isDelim_iff.1 ht
  simp [Token.isInsignificant]

theorem spells_gap_self : Spells [.gap false] tokens tokens :=
  ⟨[], tokens, rfl, by simp, by simp, rfl⟩

theorem spells_gap_dropWhile :
    Spells [.gap false] tokens (tokens.dropWhile Token.isInsignificant) :=
  ⟨_, _, List.takeWhile_append_dropWhile.symm, all_insignificant_takeWhile, by simp, rfl⟩

theorem Spells.gap_dropWhile (h : Spells [.gap false] tokens rest) :
    Spells [.gap false] tokens (rest.dropWhile Token.isInsignificant) := by
  obtain ⟨blank, middle, rfl, hblank, -, rfl⟩ := h
  refine ⟨blank ++ middle.takeWhile Token.isInsignificant, _, ?_, ?_, by simp, rfl⟩
  · rw [List.append_assoc, List.takeWhile_append_dropWhile]
  · exact List.forall_mem_append.2 ⟨hblank, all_insignificant_takeWhile⟩

/-! ## Productions that read what is spelled -/

/-- The production reads exactly the good values that the tokens spell, whatever follows. -/
def Production.Reads {α : Type} (p : Production α) (Good : α → Prop) (pieces : α → List Piece) :
    Prop :=
  ∀ tokens a rest, p.Matches tokens a rest ↔ Good a ∧ Spells (pieces a) tokens rest

theorem matches_skip_iff_spells {u : Unit} :
    Production.skip.Matches tokens u rest ↔ Spells [.gap false] tokens rest ∧ Solid rest := by
  rw [Production.matches_skip_iff]
  constructor
  · rintro rfl
    exact ⟨spells_gap_dropWhile, solid_dropWhile⟩
  · rintro ⟨⟨blank, middle, rfl, hblank, -, rfl⟩, h⟩
    exact (dropWhile_append_of_solid hblank h).symm

namespace Production

variable {α : Type} {p : Production α} {Good : α → Prop} {layout : α → List Piece}

theorem Reads.consumes (hp : p.Reads Good layout)
    (hpieces : ∀ a, Good a → 0 < (layout a).countP Piece.isToken) : p.Consumes := by
  intro tokens a rest h
  obtain ⟨hgood, hspells⟩ := (hp tokens a rest).1 h
  have := hpieces a hgood
  have := hspells.length_le
  omega

theorem Reads.matches_many_iff (hp : p.Reads Good layout) (hc : p.Consumes) {as : List α} :
    (many p).Matches tokens as rest ↔
      (∀ a ∈ as, Good a) ∧ Spells (as.flatMap layout) tokens rest ∧ p.Refuses rest := by
  induction as generalizing tokens with
  | nil =>
      constructor
      · intro h
        rcases hc.cases_many h with ⟨-, rfl, hrefuses⟩ | ⟨_, _, _, heq, -⟩
        · exact ⟨by simp, rfl, hrefuses⟩
        · cases heq
      · rintro ⟨-, rfl, hrefuses⟩
        exact hrefuses.many
  | cons a as ih =>
      constructor
      · intro h
        rcases hc.cases_many h with ⟨heq, -⟩ | ⟨b, bs, middle, heq, hb, hbs⟩
        · cases heq
        · cases heq
          obtain ⟨hgood, hspells⟩ := (hp _ _ _).1 hb
          obtain ⟨hall, hrest, hrefuses⟩ := ih.1 hbs
          exact ⟨List.forall_mem_cons.2 ⟨hgood, hall⟩, hspells.append hrest, hrefuses⟩
      · rintro ⟨hall, hspells, hrefuses⟩
        obtain ⟨hgood, hall⟩ := List.forall_mem_cons.1 hall
        rw [List.flatMap_cons] at hspells
        obtain ⟨middle, hfirst, hrest⟩ := spells_append_iff.1 hspells
        exact hc.many_cons ((hp _ _ _).2 ⟨hgood, hfirst⟩) (ih.2 ⟨hall, hrest, hrefuses⟩)

end Production

end CssSelectors
