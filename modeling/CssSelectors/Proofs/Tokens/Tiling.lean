import CssSelectors.Proofs.Tokens.Forming
import CssSelectors.Proofs.Tokens.Lexing
import Mathlib.Logic.Function.Iterate

/-!
# Tokens tile the text

The tokens of a text stand side by side from its start to its end, without gap or overlap,
and so do the arguments of every function between its parentheses. Only the end of the
text stands nowhere.
-/

namespace CssSelectors

mutual

/-- The token is not the end of the text and takes at least one code point, and the arguments of
a function fill it from behind the parenthesis that ends its name up to the parenthesis that
closes it, or up to the end of the text. -/
def Token.Fills (text : List Char) : Token → Prop
  | .atom a span => a ≠ .eof ∧ span.start < span.stop
  | .function name arguments span =>
    span.start < span.stop ∧
      ∃ paren stop, Lexeme.ident (text.drop span.start) = (name.toList, text.drop paren) ∧
        text[paren]? = some '(' ∧ span.start < paren ∧ Tiles text (paren + 1) stop arguments ∧
          (text[stop]? = some ')' ∧ span.stop = stop + 1 ∨ stop = text.length ∧ span.stop = stop)

/-- The tokens stand side by side on the code points from `start` up to `stop`. -/
def Tiles (text : List Char) : Nat → Nat → List Token → Prop
  | start, stop, [] => start = stop
  | start, stop, token :: tokens =>
    token.span.start = start ∧ token.Fills text ∧ Tiles text token.span.stop stop tokens

end

theorem Token.Fills.start_lt_stop {text : List Char} {t : Token} (h : t.Fills text) :
    t.span.start < t.span.stop := by
  cases t with
  | atom a span => exact h.2
  | function name arguments span => exact h.1

namespace Tiles

variable {text : List Char} {start stop : Nat} {tokens : List Token}

theorem start_le_stop (h : Tiles text start stop tokens) : start ≤ stop := by
  induction tokens generalizing start with
  | nil => exact Nat.le_of_eq h
  | cons t ts ih =>
      obtain ⟨hstart, hfills, hrest⟩ := h
      have hlt := hfills.start_lt_stop
      have hle := ih hrest
      omega

theorem span_le (h : Tiles text start stop tokens) :
    ∀ t ∈ tokens, t.span.start ≤ stop ∧ t.span.stop ≤ stop := by
  induction tokens generalizing start with
  | nil => exact List.forall_mem_nil _
  | cons t ts ih =>
      obtain ⟨-, hfills, hrest⟩ := h
      have hlt := hfills.start_lt_stop
      have hle := hrest.start_le_stop
      exact List.forall_mem_cons.2 ⟨by omega, ih hrest⟩

end Tiles

namespace Lexed

variable {text : List Char} {start middle stop : Nat} {lexemes : List PlacedLexeme} {c : Char}
  {tail : List Char} {lexeme : Lexeme}

theorem shows (scanned : Lexeme.scan c tail = (lexeme, text.drop middle)) :
    lexeme.Shows c tail (text.drop middle) :=
  (Lexeme.origin_of_scan scanned).shows

theorem exists_paren {name : String} (source : text.drop start = c :: tail)
    (scanned : Lexeme.scan c tail = (.function name, text.drop middle))
    (le : middle ≤ text.length) :
    ∃ paren, Lexeme.ident (text.drop start) = (name.toList, text.drop paren) ∧
      text[paren]? = some '(' ∧ start < paren ∧ middle = paren + 1 := by
  obtain ⟨hident, hsuffix⟩ := shows scanned
  have hparen : '(' :: text.drop middle = text.drop (middle - 1) := by
    have hwhole : '(' :: text.drop middle <:+ text :=
      (hsuffix.trans (List.suffix_cons c tail)).trans (source ▸ List.drop_suffix start text)
    rw [List.suffix_iff_eq_drop.1 hwhole, List.length_cons, List.length_drop]
    congr 1
    omega
  have hlength := hsuffix.length_le
  have htail := congrArg List.length source
  simp only [List.length_drop, List.length_cons] at hlength htail
  refine ⟨middle - 1, ?_, ?_, by omega, by omega⟩
  · rw [source, hident, hparen]
  · rw [← List.head?_drop, ← hparen]
    rfl

theorem cases_rightParen {span : Span}
    (h : Lexed text start stop (⟨.atom .rightParen, span⟩ :: lexemes)) :
    text[start]? = some ')' ∧ span = ⟨start, start + 1⟩ ∧ Lexed text (start + 1) stop lexemes := by
  cases h with
  | @cons _ middle _ c tail _ _ source scanned lt le rest =>
      obtain ⟨rfl, htail⟩ := shows scanned
      have hlength := congrArg List.length htail
      have hsource := congrArg List.length source
      simp only [List.length_drop, List.length_cons] at hlength hsource
      obtain rfl : middle = start + 1 := by omega
      refine ⟨?_, rfl, rest⟩
      rw [← List.head?_drop, source]
      rfl

end Lexed

theorem Forms.tiles {text : List Char} {start finish stop : Nat} {cut : Bool}
    {lexemes : List PlacedLexeme} {tokens : List Token} (h : Forms stop cut lexemes tokens)
    (hlexed : Lexed text start finish lexemes) (hstop : stop = text.length)
    (hcut : cut = true → finish = text.length) : Tiles text start finish tokens := by
  induction h generalizing start finish with
  | nil =>
      cases hlexed
      rfl
  | @atom _ a _ _ _ _ ih =>
      cases hlexed with
      | cons source scanned lt le rest =>
          have heof : a ≠ .eof := by
            rintro rfl
            exact Lexed.shows scanned
          exact ⟨rfl, ⟨heof, lt⟩, ih rest hcut⟩
  | closed _ _ _ ihInside ih =>
      cases hlexed with
      | cons source scanned lt le rest =>
          obtain ⟨close, hinside, hclose⟩ := Lexed.append_iff.1 rest
          obtain ⟨hparen, rfl, hrest⟩ := Lexed.cases_rightParen hclose
          obtain ⟨paren, hname, hopen, hlt, rfl⟩ := Lexed.exists_paren source scanned le
          have hle := hinside.bounds
          refine ⟨rfl, ⟨?_, paren, close, hname, hopen, hlt, ihInside hinside (by simp),
            .inl ⟨hparen, rfl⟩⟩, ih hrest hcut⟩
          dsimp only
          omega
  | unclosed _ _ ih =>
      cases hlexed with
      | cons source scanned lt le rest =>
          obtain ⟨paren, hname, hopen, hlt, rfl⟩ := Lexed.exists_paren source scanned le
          have hfinish := hcut rfl
          have hle := rest.bounds
          refine ⟨rfl, ⟨?_, paren, finish, hname, hopen, hlt, ih rest fun _ => hfinish,
            .inr ⟨hfinish, ?_⟩⟩, ?_⟩
          · dsimp only
            omega
          · exact hstop.trans hfinish.symm
          · exact hstop.trans hfinish.symm

/-! ## Running a tokenizer again -/

namespace Tokenizer

theorem run_of_unread_nil {tokenizer : Tokenizer} (h : tokenizer.unread = []) :
    tokenizer.run = { tokenizer with
      tokens := tokenizer.tokens ++ [.atom .eof ⟨tokenizer.position, tokenizer.position⟩] } := by
  obtain ⟨unread, position, tokens⟩ := tokenizer
  obtain rfl : unread = [] := h
  simp [run, tokensFrom, placedLexemes, Token.nest, Nesting.tokens, Nesting.empty, Nesting.closeAll]

end Tokenizer

/-- The tokens of a text tile it and end in the only end-of-text token, and every further run
adds one more end-of-text token and nothing else. -/
theorem tokenize_tiles (text : String) :
    ∃ tokens, tokenize text = tokens ++ [.atom .eof ⟨text.length, text.length⟩] ∧
      Tiles text.toList 0 text.length tokens ∧
        ∀ k, Tokenizer.run^[k + 1] (.ofText text) =
          { unread := []
            position := text.length
            tokens := tokens ++ List.replicate (k + 1) (.atom .eof ⟨text.length, text.length⟩) } := by
  have hlength : text.toList.length = text.length := String.length_toList
  have hlexed := lexed_placedLexemes (Nat.zero_le text.toList.length)
  obtain ⟨cut, hforms⟩ := exists_forms_nest text.toList.length (placedLexemes 0 text.toList)
  have htokenize : tokenize text =
      Token.nest text.length (placedLexemes 0 text.toList) ++
        [.atom .eof ⟨text.length, text.length⟩] := by
    rw [tokenize, tokensFrom, hlength, Nat.zero_add]
  refine ⟨_, htokenize, ?_, ?_⟩
  · rw [← hlength]
    exact hforms.tiles hlexed rfl fun _ => rfl
  · intro k
    induction k with
    | zero =>
        change (Tokenizer.ofText text).run = _
        rw [Tokenizer.run, Tokenizer.ofText, List.nil_append, ← tokenize, htokenize, hlength,
          Nat.zero_add]
        rfl
    | succ k ih =>
        rw [Function.iterate_succ_apply', ih, Tokenizer.run_of_unread_nil rfl]
        simp [List.replicate_succ']

end CssSelectors
