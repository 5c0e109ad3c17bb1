import CssSelectors.Proofs.Tokens.Cutting.Lexemes
import CssSelectors.Proofs.Tokens.Forming

/-!
# Text that falls into given atoms

Blank text, whole numbers, names and signs, each with what must stand behind it so that the
tokenizer takes it for what it is. Pieces of text put together fall into the atoms of the
pieces put together.
-/

namespace CssSelectors

open CodePoint

/-- The text in front of `rest` falls into the atoms. -/
inductive FallsInto (rest : List Char) : List Char → List Atom → Prop
  | nil : FallsInto rest rest []
  | cons {c : Char} {tail middle : List Char} {a : Atom} {atoms : List Atom}
      (scanned : Lexeme.scan c tail = (.atom a, middle)) (behind : FallsInto rest middle atoms) :
      FallsInto rest (c :: tail) (a :: atoms)

namespace FallsInto

variable {text middle rest : List Char} {front back atoms : List Atom}

theorem append (h : FallsInto middle text front) (h' : FallsInto rest middle back) :
    FallsInto rest text (front ++ back) := by
  induction h with
  | nil => exact h'
  | cons scanned _ ih => exact .cons scanned ih

theorem single {c : Char} {tail : List Char} {a : Atom}
    (scanned : Lexeme.scan c tail = (.atom a, rest)) : FallsInto rest (c :: tail) [a] :=
  .cons scanned .nil

end FallsInto

namespace Lexeme

theorem scan_slash (text : List Char) :
    scan '/' ('*' :: text) =
      (.atom (.comment (String.ofList (comment text).1)), (comment text).2) :=
  rfl

end Lexeme

/-! ## Blank text -/

/-- Whitespace and closed comments. -/
inductive BlankText : List Char → Prop
  | nil : BlankText []
  | blank {c : Char} {text : List Char} (blank : isBlank c = true) (rest : BlankText text) :
      BlankText (c :: text)
  | comment {body text : List Char} (body_ends : ¬ ['*', '/'] <:+: body) (rest : BlankText text) :
      BlankText ('/' :: '*' :: (body ++ '*' :: '/' :: text))

variable {text rest : List Char} {atoms : List Atom}

def Atom.IsBlank : Atom → Prop
  | .whitespace => True
  | .comment _ => True
  | _ => False

theorem comment_append {body : List Char} (h : ¬ ['*', '/'] <:+: body) :
    Lexeme.comment (body ++ '*' :: '/' :: rest) = (body, rest) := by
  induction body with
  | nil => rw [List.nil_append, Lexeme.comment]
  | cons c body ih =>
      have hbody : ¬ ['*', '/'] <:+: body := fun hinfix => h (List.infix_cons hinfix)
      rw [List.cons_append, Lexeme.comment, ih hbody]
      -- A star before a slash would end the comment too early.
      rintro tail rfl htail
      cases body with
      | nil => cases htail
      | cons d body =>
          obtain ⟨rfl, -⟩ := List.cons.inj htail
          exact h ⟨[], body, rfl⟩

theorem FallsInto.exists_of_dropWhile
    (h : ∃ atoms, (∀ a ∈ atoms, a.IsBlank) ∧ FallsInto rest (text.dropWhile isBlank) atoms) :
    ∃ atoms, (∀ a ∈ atoms, a.IsBlank) ∧ FallsInto rest text atoms := by
  obtain ⟨atoms, hblank, hfalls⟩ := h
  cases text with
  | nil => exact ⟨atoms, hblank, hfalls⟩
  | cons c text =>
      by_cases hc : isBlank c = true
      · rw [List.dropWhile_cons_of_pos hc] at hfalls
        refine ⟨.whitespace :: atoms, List.forall_mem_cons.2 ⟨trivial, hblank⟩, .cons ?_ hfalls⟩
        unfold Lexeme.scan
        rw [if_pos hc]
      · rw [List.dropWhile_cons_of_neg hc] at hfalls
        exact ⟨atoms, hblank, hfalls⟩

theorem BlankText.exists_fallsInto {c : Char} (h : BlankText text) (hc : isBlank c = false)
    (tail : List Char) :
    ∃ atoms, (∀ a ∈ atoms, a.IsBlank) ∧ FallsInto (c :: tail) (text ++ c :: tail) atoms := by
  apply FallsInto.exists_of_dropWhile
  induction h with
  | nil =>
      refine ⟨[], by simp, ?_⟩
      rw [List.nil_append, List.dropWhile_cons_of_neg (by simp [hc])]
      exact .nil
  | blank hc _ ih =>
      rw [List.cons_append, List.dropWhile_cons_of_pos hc]
      exact ih
  | @comment body text hbody _ ih =>
      obtain ⟨atoms, hblank, hfalls⟩ := FallsInto.exists_of_dropWhile ih
      have hscan : Lexeme.scan '/' ('*' :: (body ++ '*' :: '/' :: (text ++ c :: tail))) =
          (.atom (.comment (String.ofList body)), text ++ c :: tail) := by
        rw [Lexeme.scan_slash, comment_append hbody]
      rw [List.cons_append, List.cons_append, List.append_assoc, List.cons_append, List.cons_append,
        List.dropWhile_cons_of_neg (by decide)]
      exact ⟨.comment (String.ofList body) :: atoms, List.forall_mem_cons.2 ⟨trivial, hblank⟩,
        .cons hscan hfalls⟩

/-! ## Where a name or a number ends -/

def breakChars : List Char := ['\n', '\t', ' ', '\r', '\x0c', '/', ')']

def Breaks (text : List Char) : Prop :=
  ∃ c ∈ breakChars, ∃ tail, text = c :: tail

theorem forall_mem_breakChars_iff {p : Char → Prop} :
    (∀ c ∈ breakChars, p c) ↔
      p '\n' ∧ p '\t' ∧ p ' ' ∧ p '\r' ∧ p '\x0c' ∧ p '/' ∧ p ')' := by
  simp only [breakChars, List.forall_mem_cons, List.not_mem_nil, false_implies, implies_true,
    and_true]

theorem mem_breakChars_of_isBlank {c : Char} (h : isBlank c = true) : c ∈ breakChars := by
  simp only [isBlank, Bool.or_eq_true, decide_eq_true_eq] at h
  simp only [breakChars, List.mem_cons]
  tauto

theorem isBlank_of_isDigit {c : Char} (h : c.isDigit = true) : isBlank c = false := by
  apply Bool.eq_false_iff.2
  intro hblank
  have hdigit : ∀ c ∈ breakChars, c.isDigit = false := forall_mem_breakChars_iff.2 (by decide)
  rw [hdigit c (mem_breakChars_of_isBlank hblank)] at h
  cases h

theorem BlankText.breaks_of_ne_nil (h : BlankText text) (hne : text ≠ []) (rest : List Char) :
    Breaks (text ++ rest) := by
  cases h with
  | nil => exact absurd rfl hne
  | blank hc _ => exact ⟨_, mem_breakChars_of_isBlank hc, _, rfl⟩
  | comment _ _ => exact ⟨'/', by decide, _, rfl⟩

theorem BlankText.breaks (h : BlankText text) (hrest : Breaks rest) : Breaks (text ++ rest) := by
  by_cases hne : text = []
  · rwa [hne]
  · exact h.breaks_of_ne_nil hne rest

/-- Text that no name goes on into and that makes no function of a name. -/
def EndsName (text : List Char) : Prop :=
  ∀ c ∈ text.head?, isIdent c = false ∧ c ≠ '\\' ∧ c ≠ '('

theorem Breaks.endsName (h : Breaks rest) : EndsName rest := by
  obtain ⟨c, hc, tail, rfl⟩ := h
  intro d hd
  obtain rfl := Option.mem_some_iff.1 hd
  have hends : ∀ c ∈ breakChars, isIdent c = false ∧ c ≠ '\\' ∧ c ≠ '(' :=
    forall_mem_breakChars_iff.2 (by decide)
  exact hends c hc

namespace Lexeme

variable {name : List Char}

theorem ident_append (hname : ∀ c ∈ name, isIdent c = true) (hrest : EndsName rest) :
    ident (name ++ rest) = (name, rest) := by
  induction name with
  | nil =>
      cases rest with
      | nil => rw [List.append_nil, ident]
      | cons c rest =>
          obtain ⟨hident, hescape, -⟩ := hrest c rfl
          rw [List.nil_append, ident, if_neg (by simp [hident]),
            if_neg (by simp [startsEscape_cons_iff, hescape])]
  | cons c name ih =>
      have hc := List.forall_mem_cons.1 hname
      rw [List.cons_append, ident, if_pos hc.1, ih hc.2]

theorem scanIdentLike_append (hname : ∀ c ∈ name, isIdent c = true) (hrest : EndsName rest) :
    scanIdentLike (name ++ rest) = (.atom (.ident (String.ofList name)), rest) := by
  apply scanIdentLike_of_not_paren (ident_append hname hrest)
  rintro tail rfl
  exact (hrest '(' rfl).2.2 rfl

end Lexeme

/-! ## Whole numbers -/

variable {sign : Option Sign} {digits : List Char}

/-- Text that no numeral goes on into. -/
def EndsNumeral (text : List Char) : Prop :=
  ∀ c ∈ text.head?, c.isDigit = false ∧ c ≠ '.' ∧ c ≠ 'e' ∧ c ≠ 'E'

theorem Breaks.endsNumeral (h : Breaks rest) : EndsNumeral rest := by
  obtain ⟨c, hc, tail, rfl⟩ := h
  intro d hd
  obtain rfl := Option.mem_some_iff.1 hd
  have hends : ∀ c ∈ breakChars, c.isDigit = false ∧ c ≠ '.' ∧ c ≠ 'e' ∧ c ≠ 'E' :=
    forall_mem_breakChars_iff.2 (by decide)
  exact hends c hc

namespace Numeral

def ofDigits (sign : Option Sign) (digits : List Char) : Numeral :=
  ⟨sign, digits, none, none⟩

theorem ofChar?_of_isDigit {c : Char} (h : c.isDigit = true) : Sign.ofChar? c = none := by
  unfold Sign.ofChar?
  split
  · cases h
  · cases h
  · rfl

theorem sign_read_source_append (h : ∀ c ∈ rest.head?, Sign.ofChar? c = none) :
    Sign.read (Sign.source sign ++ rest) = (sign, rest) := by
  cases sign with
  | some sign => cases sign <;> rfl
  | none =>
      cases rest with
      | nil => rfl
      | cons c rest => simp [Sign.source, Sign.read, h c rfl]

theorem sign_read_source (hne : digits ≠ []) (hdigits : ∀ c ∈ digits, c.isDigit = true) :
    Sign.read (Sign.source sign ++ (digits ++ rest)) = (sign, digits ++ rest) := by
  apply sign_read_source_append
  obtain ⟨d, ds, rfl⟩ := List.exists_cons_of_ne_nil hne
  simpa using ofChar?_of_isDigit (hdigits d List.mem_cons_self)

theorem span_digits (hdigits : ∀ c ∈ digits, c.isDigit = true) (hrest : EndsNumeral rest) :
    (digits ++ rest).takeWhile Char.isDigit = digits ∧
      (digits ++ rest).dropWhile Char.isDigit = rest := by
  rw [List.takeWhile_append_of_pos hdigits, List.dropWhile_append_of_pos hdigits]
  cases rest with
  | nil => simp
  | cons c rest =>
      have hc := (hrest c rfl).1
      simp [hc]

theorem readFraction_of_endsNumeral (hrest : EndsNumeral rest) :
    readFraction rest = (none, rest) := by
  cases rest with
  | nil => rfl
  | cons c rest => exact readFraction_cons (hrest c rfl).2.1

theorem readExponent_of_endsNumeral (hrest : EndsNumeral rest) :
    readExponent rest = (none, rest) := by
  cases rest with
  | nil => rfl
  | cons c rest =>
      obtain ⟨-, -, hlower, hupper⟩ := hrest c rfl
      simp [readExponent, hlower, hupper]

theorem read_ofDigits (hne : digits ≠ []) (hdigits : ∀ c ∈ digits, c.isDigit = true)
    (hrest : EndsNumeral rest) :
    read (Sign.source sign ++ (digits ++ rest)) = (ofDigits sign digits, rest) := by
  obtain ⟨htake, hdrop⟩ := span_digits hdigits hrest
  simp only [read, sign_read_source hne hdigits, htake, hdrop, readFraction_of_endsNumeral hrest,
    readExponent_of_endsNumeral hrest, ofDigits]

theorem integer?_ofDigits (h : fitsWord (ofDigits sign digits).wholeValue = true) :
    (ofDigits sign digits).numeric.integer? = some (ofDigits sign digits).wholeValue := by
  change (if fitsWord (ofDigits sign digits).wholeValue then _ else _) = _
  rw [if_pos h]

end Numeral

namespace Lexeme

theorem scan_of_isDigit {c : Char} (h : c.isDigit = true) :
    scan c text = scanNumeric (c :: text) := by
  unfold scan
  rw [isBlank_of_isDigit h, if_neg (by decide), if_pos h]

/-- What begins with the digits of a numeral, or with its sign, is read as a numeral. -/
theorem scan_numeral {c : Char} {tail : List Char} (hne : digits ≠ [])
    (hdigits : ∀ c ∈ digits, c.isDigit = true) (hrest : EndsNumeral rest)
    (h : c :: tail = Sign.source sign ++ (digits ++ rest)) :
    scan c tail = scanNumeric (c :: tail) := by
  have hstarts : Numeral.starts (c :: tail) = true := by
    rw [Numeral.starts_iff, h, Numeral.read_ofDigits hne hdigits hrest]
    exact .inl hne
  cases sign with
  | none =>
      obtain ⟨d, ds, rfl⟩ := List.exists_cons_of_ne_nil hne
      obtain ⟨rfl, -⟩ := List.cons.inj h
      exact scan_of_isDigit (hdigits c List.mem_cons_self)
  | some sign =>
      obtain ⟨rfl, -⟩ := List.cons.inj h
      cases sign with
      | plus =>
          change (if Numeral.starts ('+' :: tail) then _ else _) = _
          exact if_pos hstarts
      | minus =>
          change (if Numeral.starts ('-' :: tail) then _ else _) = _
          exact if_pos hstarts

end Lexeme

theorem exists_cons_source (sign : Option Sign) (hne : digits ≠ []) (rest : List Char) :
    ∃ c tail, c :: tail = Sign.source sign ++ (digits ++ rest) := by
  obtain ⟨d, ds, rfl⟩ := List.exists_cons_of_ne_nil hne
  cases sign with
  | none => exact ⟨d, _, rfl⟩
  | some sign => exact ⟨sign.char, _, rfl⟩

theorem fallsInto_of_scanNumeric {middle : List Char} {a : Atom} (hne : digits ≠ [])
    (hdigits : ∀ c ∈ digits, c.isDigit = true) (hends : EndsNumeral middle)
    (h : Lexeme.scanNumeric (Sign.source sign ++ (digits ++ middle)) = (.atom a, rest)) :
    FallsInto rest (Sign.source sign ++ (digits ++ middle)) [a] := by
  obtain ⟨c, tail, hsource⟩ := exists_cons_source sign hne middle
  rw [← hsource] at h ⊢
  apply FallsInto.single
  rw [Lexeme.scan_numeral hne hdigits hends hsource, h]

theorem fallsInto_number (sign : Option Sign) (hne : digits ≠ [])
    (hdigits : ∀ c ∈ digits, c.isDigit = true) (hrest : Breaks rest) :
    FallsInto rest (Sign.source sign ++ (digits ++ rest))
      [.number (Numeral.ofDigits sign digits).numeric] := by
  apply fallsInto_of_scanNumeric hne hdigits hrest.endsNumeral
  rw [Lexeme.scanNumeric, Numeral.read_ofDigits hne hdigits hrest.endsNumeral]
  obtain ⟨c, hc, tail, rfl⟩ := hrest
  have hends : ∀ c ∈ breakChars, isIdentStart c = false ∧ c ≠ '\\' ∧ c ≠ '-' ∧ c ≠ '%' :=
    forall_mem_breakChars_iff.2 (by decide)
  obtain ⟨hstart, hbackslash, hhyphen, hpercent⟩ := hends c hc
  have hident : ¬ Lexeme.startsIdent (c :: tail) = true := by
    rw [Lexeme.startsIdent_cons hhyphen, Bool.or_eq_true, Lexeme.startsEscape_cons_iff]
    simp [hstart, hbackslash]
  dsimp only
  rw [if_neg hident]
  split
  · next heq => exact absurd (List.cons.inj heq).1 hpercent
  · rfl

/-! ## Names that begin with `n` -/

section Names

variable {letter : Char} {name : List Char}

theorem isIdent_of_letter (hletter : letter = 'n' ∨ letter = 'N')
    (hname : ∀ c ∈ name, isIdent c = true) : ∀ c ∈ letter :: name, isIdent c = true := by
  have hident : isIdent letter = true := by rcases hletter with rfl | rfl <;> decide
  exact List.forall_mem_cons.2 ⟨hident, hname⟩

theorem fallsInto_dimension (sign : Option Sign) (hne : digits ≠ [])
    (hdigits : ∀ c ∈ digits, c.isDigit = true) (hletter : letter = 'n' ∨ letter = 'N')
    (hname : ∀ c ∈ name, isIdent c = true) (hrest : EndsName rest) :
    FallsInto rest (Sign.source sign ++ (digits ++ (letter :: name ++ rest)))
      [.dimension (Numeral.ofDigits sign digits).numeric (String.ofList (letter :: name))] := by
  have hends : EndsNumeral (letter :: name ++ rest) := by
    intro c hc
    obtain rfl := Option.mem_some_iff.1 hc
    rcases hletter with rfl | rfl <;> decide
  have hstarts : Lexeme.startsIdent (letter :: name ++ rest) = true := by
    rcases hletter with rfl | rfl <;> rfl
  have hident : Lexeme.ident (letter :: name ++ rest) = (letter :: name, rest) :=
    Lexeme.ident_append (isIdent_of_letter hletter hname) hrest
  apply fallsInto_of_scanNumeric hne hdigits hends
  rw [Lexeme.scanNumeric, Numeral.read_ofDigits hne hdigits hends]
  dsimp only
  rw [if_pos hstarts, hident]

theorem fallsInto_ident (hletter : letter = 'n' ∨ letter = 'N')
    (hname : ∀ c ∈ name, isIdent c = true) (hrest : EndsName rest) :
    FallsInto rest (letter :: name ++ rest) [.ident (String.ofList (letter :: name))] := by
  apply FallsInto.single
  rw [← Lexeme.scanIdentLike_append (isIdent_of_letter hletter hname) hrest]
  rcases hletter with rfl | rfl <;> rfl

theorem fallsInto_hyphen_ident (hletter : letter = 'n' ∨ letter = 'N')
    (hname : ∀ c ∈ name, isIdent c = true) (hrest : EndsName rest) :
    FallsInto rest ('-' :: letter :: name ++ rest)
      [.ident (String.ofList ('-' :: letter :: name))] := by
  apply FallsInto.single
  have hident : ∀ c ∈ '-' :: letter :: name, isIdent c = true :=
    List.forall_mem_cons.2 ⟨by decide, isIdent_of_letter hletter hname⟩
  rw [← Lexeme.scanIdentLike_append hident hrest]
  rcases hletter with rfl | rfl <;> rfl

theorem fallsInto_plus_ident (hletter : letter = 'n' ∨ letter = 'N')
    (hname : ∀ c ∈ name, isIdent c = true) (hrest : EndsName rest) :
    FallsInto rest ('+' :: letter :: name ++ rest)
      [.delim '+', .ident (String.ofList (letter :: name))] := by
  refine FallsInto.cons ?_ (fallsInto_ident hletter hname hrest)
  rcases hletter with rfl | rfl <;> rfl

end Names

/-! ## Signs -/

theorem fallsInto_sign (sign : Sign) (hrest : Breaks rest) :
    FallsInto rest (sign.char :: rest) [.delim sign.char] := by
  apply FallsInto.single
  obtain ⟨c, hc, tail, rfl⟩ := hrest
  revert c
  rw [forall_mem_breakChars_iff]
  cases sign
  all_goals exact ⟨rfl, rfl, rfl, rfl, rfl, rfl, rfl⟩

/-! ## Tokens of atoms -/

def AreTokens (atoms : List Atom) (tokens : List Token) : Prop :=
  List.Forall₂ (fun a t => ∃ span, t = Token.atom a span) atoms tokens

theorem FallsInto.exists_tokens (h : FallsInto rest text atoms) (start stop : Nat) :
    ∃ lexemes tokens finish, placedLexemes start text = lexemes ++ placedLexemes finish rest ∧
      Forms stop false lexemes tokens ∧ AreTokens atoms tokens := by
  induction h generalizing start with
  | nil => exact ⟨[], [], start, rfl, .nil, .nil⟩
  | @cons c tail middle a atoms scanned _ ih =>
      let behind := start + (tail.length + 1 - middle.length)
      obtain ⟨lexemes, tokens, finish, hlexemes, hforms, htokens⟩ := ih behind
      refine ⟨⟨.atom a, ⟨start, behind⟩⟩ :: lexemes, .atom a ⟨start, behind⟩ :: tokens, finish, ?_,
        .atom hforms, .cons ⟨_, rfl⟩ htokens⟩
      rw [placedLexemes, scanned, hlexemes]
      rfl

theorem AreTokens.parens {tokens : List Token} (h : AreTokens atoms tokens)
    (hatoms : ∀ a ∈ atoms, a ≠ .leftParen ∧ a ≠ .rightParen) (depth : Nat) :
    Token.parens depth tokens = some depth := by
  induction h with
  | nil => rw [Token.parens]
  | @cons a t atoms tokens hspan _ ih =>
      obtain ⟨span, rfl⟩ := hspan
      obtain ⟨ha, hrest⟩ := List.forall_mem_cons.1 hatoms
      rw [← List.singleton_append, Token.parens_append,
        Token.isNeutral_atom ha.1 ha.2 span depth, Option.bind_some, ih hrest]

end CssSelectors
