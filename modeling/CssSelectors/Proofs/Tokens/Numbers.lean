import CssSelectors.Proofs.Tokens.Slices

/-!
# The numbers of tokens

Every number in a token was written as a numeral. So the whole number that it has is one of 64
bits, and without a sign it is not negative.
-/

namespace CssSelectors

/-- The whole number has 64 bits, and is not negative if no sign is written. -/
def Numeric.Written (numeric : Numeric) : Prop :=
  ∀ i, numeric.intValue = some i →
    Numeral.fitsWord i = true ∧ (numeric.signed = false → 0 ≤ i)

theorem Numeral.written_numeric (numeral : Numeral) : numeral.numeric.Written := by
  intro i hi
  have hvalue : numeral.wholeValue = i ∧ fitsWord numeral.wholeValue = true := by
    simp only [numeric, intValue] at hi
    split at hi
    · split at hi
      · next hfits => exact ⟨Option.some.inj hi, hfits⟩
      · cases hi
    · cases hi
  obtain ⟨rfl, hfits⟩ := hvalue
  refine ⟨hfits, fun hsigned => ?_⟩
  have hsign : numeral.sign = none := by simpa [numeric] using hsigned
  simp [wholeValue, isNegative, hsign]

namespace Lexeme

/-- The number in a lexeme, if it has one, was written. -/
def NumberWritten : Lexeme → Prop
  | .atom (.number numeric) => numeric.Written
  | .atom (.percentage numeric) => numeric.Written
  | .atom (.dimension numeric _) => numeric.Written
  | _ => True

theorem Origin.numberWritten {c : Char} {text rest : List Char} {lexeme : Lexeme}
    (h : Origin c text lexeme rest) : lexeme.NumberWritten := by
  cases h
  case number | percentage | dimension => exact Numeral.written_numeric _
  case mark a mark =>
    cases a
    all_goals trivial
  all_goals trivial

end Lexeme

theorem Lexed.numberWritten {text : List Char} {start stop : Nat} {lexemes : List PlacedLexeme}
    (h : Lexed text start stop lexemes) : ∀ placed ∈ lexemes, placed.lexeme.NumberWritten := by
  induction h with
  | nil => simp
  | @cons _ _ _ c tail _ _ _ scanned _ _ _ ih =>
      refine List.forall_mem_cons.2 ⟨?_, ih⟩
      exact (Lexeme.origin_of_scan scanned).numberWritten

theorem Forms.mem_of_atom {stop : Nat} {cut : Bool} {lexemes : List PlacedLexeme}
    {tokens : List Token} {a : Atom} {span : Span} (h : Forms stop cut lexemes tokens)
    (hmem : .atom a span ∈ tokens) : ⟨.atom a, span⟩ ∈ lexemes := by
  induction h with
  | nil => cases hmem
  | atom _ ih =>
      rcases List.mem_cons.1 hmem with heq | hmem
      · cases heq
        exact List.mem_cons_self
      · exact List.mem_cons_of_mem _ (ih hmem)
  | closed _ _ _ _ ih =>
      rcases List.mem_cons.1 hmem with heq | hmem
      · cases heq
      · exact List.mem_cons_of_mem _ (List.mem_append_right _ (List.mem_cons_of_mem _ (ih hmem)))
  | unclosed =>
      rcases List.mem_cons.1 hmem with heq | hmem
      · cases heq
      · cases hmem

/-- The number in a token, if it has one, was written. -/
def Token.NumberWritten (t : Token) : Prop :=
  ∀ numeric, t.numeric? = some numeric → numeric.Written

theorem Token.numberWritten_atom {a : Atom} {span : Span}
    (h : (Lexeme.atom a).NumberWritten) : (Token.atom a span).NumberWritten := by
  intro numeric hnumeric
  cases a <;> first | cases hnumeric; exact h | cases hnumeric

theorem Token.Level.numberWritten {text : String} {level : List Token}
    (h : Level (tokenize text) level) : ∀ t ∈ level, t.NumberWritten := by
  obtain ⟨start, stop, tokens, ⟨cut, lexemes, hlexed, hforms, -⟩, hlevel⟩ := h.exists_occupies
  have htokens : ∀ t ∈ tokens, t.NumberWritten := by
    intro t ht
    cases t with
    | atom a span => exact numberWritten_atom (hlexed.numberWritten _ (hforms.mem_of_atom ht))
    | function name arguments span => rintro _ ⟨⟩
  rcases hlevel with rfl | rfl
  · exact htokens
  · intro t ht
    rcases List.mem_append.1 ht with ht | ht
    · exact htokens t ht
    · obtain rfl := List.mem_singleton.1 ht
      rintro _ ⟨⟩

end CssSelectors
