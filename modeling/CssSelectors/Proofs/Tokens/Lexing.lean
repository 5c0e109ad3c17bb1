import CssSelectors.Proofs.Tokens.Origins
import Mathlib.Data.List.Basic

/-!
# Text that falls into lexemes

The lexemes of a text stand side by side from its start to its end, and what each of them
is can be told from the code points it stands on.
-/

namespace CssSelectors

open CodePoint

namespace Lexeme

/-- What a lexeme read from `c :: text` with `rest` behind it says about the text. -/
def Shows (c : Char) (text rest : List Char) : Lexeme → Prop
  | .function name => ident (c :: text) = (name.toList, '(' :: rest) ∧ '(' :: rest <:+ text
  | .atom .eof => False
  | .atom .rightParen => c = ')' ∧ rest = text
  | .atom .badString => rest.head? = some '\n'
  | .atom (.delim d) => d = c ∧ rest = text ∧ (c = '\\' → text.head? = some '\n')
  | .atom _ => True

variable {c : Char} {text : List Char}

theorem head?_of_quoted_eq_none {quote : Char} (h : (quoted quote text).1 = none) :
    (quoted quote text).2.head? = some '\n' := by
  fun_induction quoted quote text with
  | case1 => cases h
  | case2 => cases h
  | case3 => rfl
  | case4 => cases h
  | case5 rest _ _ _ _ escaped ih => exact ih (Option.map_eq_none_iff.1 h)
  | case6 rest _ _ _ _ ih => exact ih h
  | case7 c rest _ _ _ ih => exact ih (Option.map_eq_none_iff.1 h)

theorem Origin.shows {lexeme : Lexeme} {rest : List Char} (h : Origin c text lexeme rest) :
    lexeme.Shows c text rest := by
  cases h
  case function starts read =>
    have hsuffix := ident_suffix_of_startsIdent starts
    rw [read] at hsuffix
    exact ⟨by rw [String.toList_ofList]; exact read, hsuffix⟩
  case badString read =>
    have hnewline := head?_of_quoted_eq_none (congrArg Prod.fst read)
    rwa [read] at hnewline
  case mark a mark =>
    cases a
    case rightParen => exact ⟨(Option.some.inj mark).symm, rfl⟩
    all_goals trivial
  case delim no_escape =>
    refine ⟨rfl, rfl, fun hc => ?_⟩
    subst hc
    simpa [startsEscape] using no_escape
  all_goals trivial

end Lexeme

/-- The lexemes stand side by side on the code points from `start` up to `stop`. -/
inductive Lexed (text : List Char) : Nat → Nat → List PlacedLexeme → Prop
  | nil {start : Nat} (le : start ≤ text.length) : Lexed text start start []
  | cons {start middle stop : Nat} {c : Char} {tail : List Char} {lexeme : Lexeme}
      {lexemes : List PlacedLexeme} (source : text.drop start = c :: tail)
      (scanned : Lexeme.scan c tail = (lexeme, text.drop middle)) (lt : start < middle)
      (le : middle ≤ text.length) (rest : Lexed text middle stop lexemes) :
      Lexed text start stop (⟨lexeme, ⟨start, middle⟩⟩ :: lexemes)

namespace Lexed

variable {text : List Char} {start stop : Nat} {lexemes front back : List PlacedLexeme}

theorem bounds (h : Lexed text start stop lexemes) : start ≤ stop ∧ stop ≤ text.length := by
  induction h with
  | nil le => exact ⟨Nat.le_refl _, le⟩
  | cons _ _ lt _ _ ih => exact ⟨by omega, ih.2⟩

theorem append_iff :
    Lexed text start stop (front ++ back) ↔
      ∃ middle, Lexed text start middle front ∧ Lexed text middle stop back := by
  induction front generalizing start with
  | nil =>
      constructor
      · intro h
        exact ⟨start, .nil (Nat.le_trans h.bounds.1 h.bounds.2), h⟩
      · rintro ⟨middle, hfront, hback⟩
        cases hfront
        exact hback
  | cons placed front ih =>
      constructor
      · intro h
        cases h with
        | cons source scanned lt le rest =>
            obtain ⟨middle, hfront, hback⟩ := ih.1 rest
            exact ⟨middle, .cons source scanned lt le hfront, hback⟩
      · rintro ⟨middle, hfront, hback⟩
        cases hfront with
        | cons source scanned lt le rest =>
            exact .cons source scanned lt le (ih.2 ⟨middle, rest, hback⟩)

end Lexed

theorem drop_of_suffix {text tail rest : List Char} {start : Nat} {c : Char}
    (hsource : text.drop start = c :: tail) (hrest : rest <:+ tail) :
    text.drop (start + (tail.length + 1 - rest.length)) = rest := by
  have hlength : text.length - start = tail.length + 1 := by
    rw [← List.length_drop, hsource, List.length_cons]
  have hle := hrest.length_le
  have hsuffix : rest <:+ text :=
    (hrest.trans (List.suffix_cons c tail)).trans (hsource ▸ List.drop_suffix start text)
  rw [List.suffix_iff_eq_drop.1 hsuffix, List.length_drop]
  congr 1
  have := hsuffix.length_le
  omega

theorem lexed_placedLexemes {text : List Char} {start : Nat} (h : start ≤ text.length) :
    Lexed text start text.length (placedLexemes start (text.drop start)) := by
  generalize hrest : text.drop start = rest
  fun_induction placedLexemes start rest with
  | case1 start =>
      have hstart : start = text.length := by
        have := List.drop_eq_nil_iff.1 hrest
        omega
      rw [hstart]
      exact .nil (Nat.le_refl _)
  | case2 start c tail scanned stop ih =>
      have hle : scanned.2.length ≤ tail.length := Lexeme.scan_length_le c tail
      have hlength : text.length - start = tail.length + 1 := by
        rw [← List.length_drop, hrest, List.length_cons]
      have hdrop : text.drop stop = scanned.2 := drop_of_suffix hrest (Lexeme.scan_suffix c tail)
      have hstop : stop ≤ text.length := by omega
      refine .cons hrest ?_ (by omega) hstop (ih hstop hdrop)
      rw [hdrop]

end CssSelectors
