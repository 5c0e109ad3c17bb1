import CssSelectors.Proofs.Tokens.Slices
import Mathlib.Data.List.Infix

/-!
# The text a token stands on

At every depth a token stands on text that the scanner takes for its lexeme, and the token
behind an atom stands directly behind it. The names, units and addresses in tokens are decoded
from runs of code points that stand for themselves and of escapes.
-/

namespace CssSelectors

open CodePoint

/-! ## Tokens and their lexemes -/

def Token.lexeme : Token → Lexeme
  | .atom a _ => .atom a
  | .function name _ _ => .function name

namespace Occupies

variable {text : List Char} {start stop : Nat} {t : Token} {tokens : List Token}

theorem exists_scan (h : Occupies text start stop (t :: tokens)) :
    ∃ c tail middle, text.drop t.span.start = c :: tail ∧
      Lexeme.scan c tail = (t.lexeme, text.drop middle) ∧ t.span.start < middle ∧
        middle ≤ text.length ∧
          ∀ a span, t = .atom a span → span.stop = middle ∧ Occupies text middle stop tokens := by
  obtain ⟨cut, lexemes, hlexed, hforms, hcut⟩ := h
  cases hforms with
  | atom rest =>
      cases hlexed with
      | cons source scanned lt le hrest =>
          refine ⟨_, _, _, source, scanned, lt, le, fun a span heq => ?_⟩
          cases heq
          exact ⟨rfl, cut, _, hrest, rest, hcut⟩
  | closed =>
      cases hlexed with
      | cons source scanned lt le _ =>
          exact ⟨_, _, _, source, scanned, lt, le, fun a span heq => nomatch heq⟩
  | unclosed =>
      cases hlexed with
      | cons source scanned lt le _ =>
          exact ⟨_, _, _, source, scanned, lt, le, fun a span heq => nomatch heq⟩

end Occupies

/-- Tokens side by side, at any depth, stand on text or end in the end of the text. -/
theorem Token.Level.exists_occupies_run {text : String} {level run : List Token}
    (h : Level (tokenize text) level) (hrun : run <:+: level) :
    (∃ start stop, Occupies text.toList start stop run) ∨
      run.getLast? = some (.atom .eof ⟨text.length, text.length⟩) := by
  obtain ⟨start, stop, tokens, hoccupies, rfl | rfl⟩ := h.exists_occupies
  · exact .inl (hoccupies.exists_infix hrun)
  · obtain hsuffix | hinfix := List.infix_concat_iff.1 hrun
    · obtain rfl | ⟨front, rfl, -⟩ := List.suffix_concat_iff.1 hsuffix
      · exact .inl (hoccupies.exists_infix List.nil_infix)
      · exact .inr List.getLast?_concat
    · exact .inl (hoccupies.exists_infix hinfix)

/-- Every token but the end of the text stands on text that begins with its lexeme. -/
theorem Token.Level.exists_scan {text : String} {level : List Token} {t : Token}
    (h : Level (tokenize text) level) (ht : t ∈ level) :
    (∃ c tail middle, text.toList.drop t.span.start = c :: tail ∧
      Lexeme.scan c tail = (t.lexeme, text.toList.drop middle) ∧ t.span.start < middle ∧
        middle ≤ text.toList.length ∧ ∀ a span, t = .atom a span → span.stop = middle) ∨
      t = .atom .eof ⟨text.length, text.length⟩ := by
  obtain ⟨start, stop, hoccupies⟩ | heof :=
    h.exists_occupies_run ((List.singleton_infix_iff t level).2 ht)
  · obtain ⟨c, tail, middle, hsource, hscan, hlt, hle, hatom⟩ := hoccupies.exists_scan
    exact .inl ⟨c, tail, middle, hsource, hscan, hlt, hle, fun a span heq => (hatom a span heq).1⟩
  · exact .inr (Option.some.inj heof)

theorem extract_eq_of_drop {text piece : List Char} {start stop : Nat} (hle : start ≤ stop)
    (h : text.drop start = piece ++ text.drop stop) : text.extract start stop = piece := by
  rw [drop_eq_extract_append text hle] at h
  exact List.append_cancel_right h

theorem exists_drop_eq {text rest : List Char} {start : Nat} (hle : start ≤ text.length)
    (h : rest <:+ text.drop start) :
    ∃ stop, text.drop stop = rest ∧ start ≤ stop ∧ stop ≤ text.length := by
  have hlength := h.length_le
  rw [List.length_drop] at hlength
  have hrest := List.suffix_iff_eq_drop.1 (h.trans (List.drop_suffix start text))
  exact ⟨text.length - rest.length, hrest.symm, by omega, by omega⟩

/-! ## Runs of code points and escapes -/

/-- In front of `rest` the text is a run of code points that are `allowed` to stand for
themselves and of escapes, each as long as it can be, and this is what the run decodes to. -/
inductive Decodes (allowed : Char → Bool) : List Char → List Char → List Char → Prop
  | nil {rest : List Char} : Decodes allowed rest [] rest
  | plain {c : Char} {text value rest : List Char} (h : allowed c = true)
      (no_escape : Lexeme.startsEscape (c :: text) = false)
      (tail : Decodes allowed text value rest) : Decodes allowed (c :: text) (c :: value) rest
  | escape {c : Char} {text value rest : List Char}
      (h : Lexeme.startsEscape (c :: text) = true)
      (tail : Decodes allowed (Lexeme.escape text).2 value rest) :
      Decodes allowed (c :: text) ((Lexeme.escape text).1 :: value) rest

/-- No such run goes on into the text. -/
def Halts (allowed : Char → Bool) (text : List Char) : Prop :=
  ∀ c ∈ text.head?, allowed c = false ∧ Lexeme.startsEscape text = false

variable {allowed allowed' : Char → Bool} {text value value' middle rest rest' : List Char}

theorem halts_nil : Halts allowed [] := by
  rintro _ ⟨⟩

theorem halts_cons_iff {c : Char} :
    Halts allowed (c :: text) ↔
      allowed c = false ∧ Lexeme.startsEscape (c :: text) = false := by
  simp [Halts]

namespace Decodes

theorem append (h : Decodes allowed text value middle) (h' : Decodes allowed middle value' rest) :
    Decodes allowed text (value ++ value') rest := by
  induction h with
  | nil => exact h'
  | plain h no_escape _ ih => exact .plain h no_escape (ih h')
  | escape h _ ih => exact .escape h (ih h')

theorem mono (h : Decodes allowed text value rest)
    (hallowed : ∀ c, allowed c = true → allowed' c = true) : Decodes allowed' text value rest := by
  induction h with
  | nil => exact .nil
  | plain h no_escape _ ih => exact .plain (hallowed _ h) no_escape ih
  | escape h _ ih => exact .escape h ih

theorem suffix (h : Decodes allowed text value rest) : rest <:+ text := by
  induction h with
  | nil => exact List.suffix_refl _
  | plain _ _ _ ih => exact ih.trans (List.suffix_cons _ _)
  | escape _ _ ih => exact (ih.trans (Lexeme.escape_suffix _)).trans (List.suffix_cons _ _)

theorem unique (h : Decodes allowed text value rest) (h' : Decodes allowed text value' rest')
    (hrest : Halts allowed rest) (hrest' : Halts allowed rest') :
    value = value' ∧ rest = rest' := by
  induction h generalizing value' with
  | nil =>
      cases h' with
      | nil => exact ⟨rfl, rfl⟩
      | plain h _ _ => simp [halts_cons_iff, h] at hrest
      | escape h _ => simp [halts_cons_iff, h] at hrest
  | plain h no_escape _ ih =>
      cases h' with
      | nil => simp [halts_cons_iff, h] at hrest'
      | plain _ _ tail =>
          obtain ⟨rfl, rfl⟩ := ih tail hrest
          exact ⟨rfl, rfl⟩
      | escape h _ => simp [h] at no_escape
  | escape h _ ih =>
      cases h' with
      | nil => simp [halts_cons_iff, h] at hrest'
      | plain _ no_escape _ => simp [h] at no_escape
      | escape _ tail =>
          obtain ⟨rfl, rfl⟩ := ih tail hrest
          exact ⟨rfl, rfl⟩

end Decodes

/-! ## Names -/

namespace Lexeme

theorem startsEscape_eq_false_of_isIdent {c : Char} (h : isIdent c = true) (text : List Char) :
    startsEscape (c :: text) = false := by
  apply Bool.eq_false_iff.2
  intro hescape
  obtain ⟨rfl, -⟩ := startsEscape_cons_iff.1 hescape
  cases h

theorem decodes_ident (text : List Char) : Decodes isIdent text (ident text).1 (ident text).2 := by
  fun_induction ident text with
  | case1 => exact .nil
  | case2 c rest hc _ ih => exact .plain hc (startsEscape_eq_false_of_isIdent hc rest) ih
  | case3 c rest _ hescape _ _ ih => exact .escape hescape ih
  | case4 => exact .nil

theorem halts_ident (text : List Char) : Halts isIdent (ident text).2 := by
  fun_induction ident text with
  | case1 => exact halts_nil
  | case2 c rest _ _ ih => exact ih
  | case3 c rest _ _ _ _ ih => exact ih
  | case4 c rest hc hescape =>
      exact halts_cons_iff.2 ⟨Bool.eq_false_iff.2 hc, Bool.eq_false_iff.2 hescape⟩

theorem ident_of_decodes {name rest : List Char} (h : Decodes isIdent text name rest)
    (hrest : Halts isIdent rest) : ident text = (name, rest) := by
  obtain ⟨hname, hstop⟩ := (decodes_ident text).unique h (halts_ident text) hrest
  exact Prod.ext hname hstop

theorem startsIdent_eq_false_of_halts (h : Halts isIdent text) : startsIdent text = false := by
  apply Bool.eq_false_iff.2
  intro hstarts
  cases text with
  | nil => cases hstarts
  | cons c text =>
      obtain ⟨hc, hescape⟩ := halts_cons_iff.1 h
      obtain hident | hescape' := isIdent_or_startsEscape hstarts
      · simp [hc] at hident
      · simp [hescape] at hescape'

theorem ident_ne_nil {c : Char} (h : isIdent c = true ∨ startsEscape (c :: text) = true) :
    (ident (c :: text)).1 ≠ [] := by
  rw [ident]
  split
  · simp
  · next hc =>
      rw [if_pos (h.resolve_left hc)]
      simp

end Lexeme

end CssSelectors
