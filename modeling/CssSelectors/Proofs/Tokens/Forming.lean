import CssSelectors.Token.Nesting
import Mathlib.Data.List.Induction

/-!
# Lexemes that form tokens

Which tokens lexemes form, said without a stack: a function takes the tokens up to the
closing parenthesis that no plain one among them is open for, or up to the end of the
text. Nesting finds these tokens, and there are no others.
-/

namespace CssSelectors

/-- The number of plain parentheses that are open behind the tokens, if `depth` are open
before them and none closes that was not opened. -/
def Token.parens : Nat → List Token → Option Nat
  | depth, [] => some depth
  | depth, .atom .leftParen _ :: tokens => parens (depth + 1) tokens
  | 0, .atom .rightParen _ :: _ => none
  | depth + 1, .atom .rightParen _ :: tokens => parens depth tokens
  | depth, _ :: tokens => parens depth tokens

/-- The lexemes form the tokens in a text that ends at `stop`. Where `cut` is true, the end of
the text closes the last of them. -/
inductive Forms (stop : Nat) : Bool → List PlacedLexeme → List Token → Prop
  | nil : Forms stop false [] []
  | atom {cut : Bool} {a : Atom} {span : Span} {lexemes : List PlacedLexeme}
      {tokens : List Token} (rest : Forms stop cut lexemes tokens) :
      Forms stop cut (⟨.atom a, span⟩ :: lexemes) (.atom a span :: tokens)
  | closed {cut : Bool} {name : String} {span close : Span} {inner lexemes : List PlacedLexeme}
      {arguments tokens : List Token} (inside : Forms stop false inner arguments)
      (parens : Token.parens 0 arguments = some 0) (rest : Forms stop cut lexemes tokens) :
      Forms stop cut (⟨.function name, span⟩ :: (inner ++ ⟨.atom .rightParen, close⟩ :: lexemes))
        (.function name arguments ⟨span.start, close.stop⟩ :: tokens)
  | unclosed {cut : Bool} {name : String} {span : Span} {inner : List PlacedLexeme}
      {arguments : List Token} (inside : Forms stop cut inner arguments)
      (parens : (Token.parens 0 arguments).isSome = true) :
      Forms stop true (⟨.function name, span⟩ :: inner)
        [.function name arguments ⟨span.start, stop⟩]

namespace Token

theorem parens_append (depth : Nat) (front back : List Token) :
    parens depth (front ++ back) = (parens depth front).bind fun depth => parens depth back := by
  fun_induction parens depth front with
  | case1 => rfl
  | case2 depth span tokens ih => rw [List.cons_append, parens, ih]
  | case3 => rfl
  | case4 depth span tokens ih => rw [List.cons_append, parens, ih]
  | case5 depth t tokens hleft hzero hsucc ih =>
      rw [List.cons_append, parens, ih]
      all_goals assumption

/-- A token that is no plain parenthesis leaves their number as it is. -/
def IsNeutral (t : Token) : Prop :=
  ∀ depth, parens depth [t] = some depth

theorem isNeutral_function (name : String) (arguments : List Token) (span : Span) :
    (function name arguments span).IsNeutral := by
  intro depth
  simp [parens]

theorem isNeutral_atom {a : Atom} (hleft : a ≠ .leftParen) (hright : a ≠ .rightParen)
    (span : Span) : (atom a span).IsNeutral := by
  intro depth
  cases a <;> simp_all [parens]

end Token

namespace Forms

variable {stop : Nat} {cut : Bool} {front back lexemes : List PlacedLexeme}
  {tokens tokens' : List Token}

theorem append (h : Forms stop false front tokens) (h' : Forms stop cut back tokens') :
    Forms stop cut (front ++ back) (tokens ++ tokens') := by
  generalize hwhole : false = whole at h
  induction h with
  | nil => exact h'
  | atom _ ih => exact .atom (ih hwhole)
  | closed inside parens _ _ ih =>
      rw [List.cons_append, List.append_assoc]
      exact .closed inside parens (ih hwhole)
  | unclosed => cases hwhole

end Forms

/-! ## Nesting finds what lexemes form -/

namespace Nesting

/-- What the lexemes have led to: they form the finished tokens, and behind the name of every
open function the arguments that it has so far. -/
inductive Reached (stop : Nat) : List PlacedLexeme → Nesting → Prop
  | outside {lexemes : List PlacedLexeme} {finished : List Token}
      (forms : Forms stop false lexemes finished.reverse) : Reached stop lexemes ⟨[], finished⟩
  | inside {lexemes inner : List PlacedLexeme} {f : OpenFunction} {fs : List OpenFunction}
      {finished : List Token} {span : Span} (outer : Reached stop lexemes ⟨fs, finished⟩)
      (start : span.start = f.start) (forms : Forms stop false inner f.arguments.reverse)
      (parens : Token.parens 0 f.arguments.reverse = some f.parens) :
      Reached stop (lexemes ++ ⟨.function f.name, span⟩ :: inner) ⟨f :: fs, finished⟩

variable {stop : Nat} {lexemes more : List PlacedLexeme} {nesting : Nesting} {token : Token}

theorem Reached.outside_append {finished : List Token} (h : Reached stop lexemes ⟨[], finished⟩)
    (hmore : Forms stop false more [token]) :
    Reached stop (lexemes ++ more) ⟨[], token :: finished⟩ := by
  cases h with
  | outside forms =>
      apply Reached.outside
      rw [List.reverse_cons]
      exact forms.append hmore

theorem Reached.inside_append {f : OpenFunction} {fs : List OpenFunction} {finished : List Token}
    {depth : Nat} (h : Reached stop lexemes ⟨f :: fs, finished⟩)
    (hmore : Forms stop false more [token]) (hparens : Token.parens f.parens [token] = some depth) :
    Reached stop (lexemes ++ more)
      ⟨{ f with parens := depth, arguments := token :: f.arguments } :: fs, finished⟩ := by
  cases h with
  | inside outer start forms parens =>
      let g : OpenFunction := { f with parens := depth, arguments := token :: f.arguments }
      have harguments : g.arguments.reverse = f.arguments.reverse ++ [token] := List.reverse_cons
      rw [List.append_assoc, List.cons_append]
      refine Reached.inside (f := g) outer start ?_ ?_
      · rw [harguments]
        exact forms.append hmore
      · rw [harguments, Token.parens_append, parens]
        exact hparens

theorem Reached.push (h : Reached stop lexemes nesting) (hneutral : token.IsNeutral)
    (hmore : Forms stop false more [token]) :
    Reached stop (lexemes ++ more) (nesting.push token) := by
  obtain ⟨_ | ⟨f, fs⟩, finished⟩ := nesting
  · exact h.outside_append hmore
  · exact h.inside_append hmore (hneutral f.parens)

theorem Reached.openParen (h : Reached stop lexemes nesting) (span : Span) :
    Reached stop (lexemes ++ [⟨.atom .leftParen, span⟩]) (nesting.openParen span) := by
  obtain ⟨_ | ⟨f, fs⟩, finished⟩ := nesting
  · exact h.outside_append (.atom .nil)
  · exact h.inside_append (.atom .nil) rfl

theorem Reached.closeParen (h : Reached stop lexemes nesting) (span : Span) :
    Reached stop (lexemes ++ [⟨.atom .rightParen, span⟩]) (nesting.closeParen span) := by
  obtain ⟨_ | ⟨f, fs⟩, finished⟩ := nesting
  · exact h.outside_append (.atom .nil)
  rw [Nesting.closeParen]
  split
  · next hzero =>
      cases h with
      | inside outer start forms parens =>
          rw [hzero] at parens
          rw [List.append_assoc, List.cons_append]
          apply outer.push (Token.isNeutral_function _ _ _)
          rw [← start]
          exact .closed forms parens .nil
  · next hopen =>
      obtain ⟨depth, hdepth⟩ := Nat.exists_eq_succ_of_ne_zero hopen
      have hparens : Token.parens f.parens [.atom .rightParen span] = some (f.parens - 1) := by
        rw [hdepth]
        rfl
      exact h.inside_append (.atom .nil) hparens

theorem Reached.step (h : Reached stop lexemes nesting) (placed : PlacedLexeme) :
    Reached stop (lexemes ++ [placed]) (nesting.step placed) := by
  obtain ⟨lexeme, span⟩ := placed
  unfold Nesting.step
  split
  · next name heq =>
      obtain rfl : lexeme = .function name := heq
      exact Reached.inside (f := ⟨name, span.start, 0, []⟩) h rfl .nil rfl
  · next heq =>
      obtain rfl : lexeme = .atom .leftParen := heq
      exact h.openParen span
  · next heq =>
      obtain rfl : lexeme = .atom .rightParen := heq
      exact h.closeParen span
  · next a hleft hright heq =>
      obtain rfl : lexeme = .atom a := heq
      have hneutral : (Token.atom a span).IsNeutral :=
        Token.isNeutral_atom (fun ha => hleft (ha ▸ rfl)) (fun ha => hright (ha ▸ rfl)) span
      exact h.push hneutral (.atom .nil)

theorem reached_foldl (stop : Nat) (lexemes : List PlacedLexeme) :
    Reached stop lexemes (lexemes.foldl Nesting.step .empty) := by
  induction lexemes using List.reverseRecOn with
  | nil => exact .outside .nil
  | append_singleton lexemes placed ih =>
      rw [List.foldl_append]
      exact ih.step placed

theorem Reached.exists_forms_closeAll {fs : List OpenFunction} {finished : List Token}
    {cut : Bool} (h : Reached stop lexemes ⟨fs, finished⟩) (inner : Option Token)
    (hinner : Forms stop cut more inner.toList)
    (hneutral : ∀ token ∈ inner, Token.IsNeutral token) :
    ∃ cut, Forms stop cut (lexemes ++ more)
      ((closeAll stop fs inner).toList ++ finished).reverse := by
  induction fs generalizing lexemes more inner cut with
  | nil =>
      cases h with
      | outside forms =>
          refine ⟨cut, ?_⟩
          rw [closeAll, List.reverse_append]
          cases inner with
          | none => exact forms.append hinner
          | some token => exact forms.append hinner
  | cons f fs ih =>
      cases h with
      | @inside lexemes innerLexemes _ _ _ span outer start forms parens =>
          have harguments : (inner.toList ++ f.arguments).reverse =
              f.arguments.reverse ++ inner.toList := by
            cases inner <;> simp
          have hparens : (Token.parens 0 (f.arguments.reverse ++ inner.toList)).isSome = true := by
            rw [Token.parens_append, parens]
            cases inner with
            | none => rfl
            | some token => exact Option.isSome_iff_exists.2 ⟨_, hneutral token rfl f.parens⟩
          have hfunction : Forms stop true (⟨.function f.name, span⟩ :: (innerLexemes ++ more))
              [finishFunction { f with arguments := inner.toList ++ f.arguments } stop] := by
            rw [finishFunction, harguments, ← start]
            exact .unclosed (forms.append hinner) hparens
          rw [closeAll, List.append_assoc, List.cons_append]
          apply ih outer (some _) hfunction
          intro token htoken
          obtain rfl := Option.mem_some_iff.1 htoken
          exact Token.isNeutral_function _ _ _

end Nesting

theorem exists_forms_nest (stop : Nat) (lexemes : List PlacedLexeme) :
    ∃ cut, Forms stop cut lexemes (Token.nest stop lexemes) := by
  have hreached := Nesting.reached_foldl stop lexemes
  have hforms := hreached.exists_forms_closeAll none .nil (by simp)
  rwa [List.append_nil] at hforms

/-! ## Lexemes form nothing else -/

namespace Nesting

variable {stop : Nat} {cut : Bool} {lexemes : List PlacedLexeme} {tokens : List Token}

/-- A finished token where it belongs. A plain parenthesis is counted. -/
def add (nesting : Nesting) : Token → Nesting
  | .atom a span => nesting.step ⟨.atom a, span⟩
  | .function name arguments span => nesting.push (.function name arguments span)

theorem add_outside (finished : List Token) (token : Token) :
    add ⟨[], finished⟩ token = ⟨[], token :: finished⟩ := by
  cases token with
  | atom a span => cases a <;> rfl
  | function name arguments span => rfl

theorem add_inside {f : OpenFunction} {fs : List OpenFunction} {finished : List Token}
    {token : Token} {depth : Nat} (h : Token.parens f.parens [token] = some depth) :
    add ⟨f :: fs, finished⟩ token =
      ⟨{ f with parens := depth, arguments := token :: f.arguments } :: fs, finished⟩ := by
  obtain ⟨name, start, parens, arguments⟩ := f
  cases token with
  | function name arguments span =>
      obtain rfl : parens = depth := by simpa [Token.parens] using h
      rfl
  | atom a span =>
      cases a
      case rightParen =>
        cases parens with
        | zero => cases h
        | succ parens =>
            obtain rfl : parens = depth := by simpa [Token.parens] using h
            rfl
      all_goals
        cases h
        rfl

theorem foldl_add_outside (finished tokens : List Token) :
    tokens.foldl add ⟨[], finished⟩ = ⟨[], tokens.reverse ++ finished⟩ := by
  induction tokens generalizing finished with
  | nil => rfl
  | cons token tokens ih => rw [List.foldl_cons, add_outside, ih]; simp

theorem foldl_add_inside {f : OpenFunction} {fs : List OpenFunction} {finished : List Token}
    {depth : Nat} (h : Token.parens f.parens tokens = some depth) :
    tokens.foldl add ⟨f :: fs, finished⟩ =
      ⟨{ f with parens := depth, arguments := tokens.reverse ++ f.arguments } :: fs, finished⟩ := by
  induction tokens generalizing f with
  | nil =>
      obtain rfl : f.parens = depth := by simpa [Token.parens] using h
      rfl
  | cons token tokens ih =>
      rw [← List.singleton_append, Token.parens_append] at h
      obtain ⟨middle, hmiddle, hdepth⟩ := Option.bind_eq_some_iff.1 h
      rw [List.foldl_cons, add_inside hmiddle, ih hdepth]
      simp

theorem foldl_step_closed {name : String} {span close : Span} {inner : List PlacedLexeme}
    {arguments : List Token} (parens : Token.parens 0 arguments = some 0)
    (h : ∀ nesting, inner.foldl Nesting.step nesting = arguments.foldl add nesting)
    (nesting : Nesting) :
    (⟨.function name, span⟩ :: (inner ++ ⟨.atom .rightParen, close⟩ :: lexemes)).foldl
        Nesting.step nesting =
      lexemes.foldl Nesting.step
        (nesting.add (.function name arguments ⟨span.start, close.stop⟩)) := by
  obtain ⟨fs, finished⟩ := nesting
  let f : OpenFunction := ⟨name, span.start, 0, []⟩
  calc (⟨.function name, span⟩ :: (inner ++ ⟨.atom .rightParen, close⟩ :: lexemes)).foldl
        Nesting.step ⟨fs, finished⟩
      = lexemes.foldl Nesting.step (Nesting.step (inner.foldl Nesting.step ⟨f :: fs, finished⟩)
          ⟨.atom .rightParen, close⟩) := by
        rw [List.foldl_cons, List.foldl_append, List.foldl_cons]
        rfl
    _ = lexemes.foldl Nesting.step (Nesting.step
          ⟨{ f with parens := 0, arguments := arguments.reverse ++ [] } :: fs, finished⟩
          ⟨.atom .rightParen, close⟩) := by
        rw [h, foldl_add_inside (f := f) parens]
    _ = _ := by
        simp [Nesting.step, closeParen, finishFunction, add, f]

theorem foldl_step_of_forms (h : Forms stop false lexemes tokens) (nesting : Nesting) :
    lexemes.foldl Nesting.step nesting = tokens.foldl add nesting := by
  generalize hwhole : false = whole at h
  induction h generalizing nesting with
  | nil => rfl
  | atom _ ih => exact ih _ hwhole
  | closed _ parens _ ihInside ih =>
      rw [foldl_step_closed parens (ihInside · rfl), ih _ hwhole]
      rfl
  | unclosed => cases hwhole

theorem tokens_inside (f : OpenFunction) (fs : List OpenFunction) (finished : List Token) :
    Nesting.tokens stop ⟨f :: fs, finished⟩ =
      Nesting.tokens stop (push (finishFunction f stop) ⟨fs, finished⟩) := by
  cases fs with
  | nil => rfl
  | cons g gs => rfl

theorem tokens_foldl_step_of_forms (h : Forms stop cut lexemes tokens) (nesting : Nesting) :
    (lexemes.foldl Nesting.step nesting).tokens stop = (tokens.foldl add nesting).tokens stop := by
  induction h generalizing nesting with
  | nil => rfl
  | atom _ ih => exact ih _
  | closed inside parens _ _ ih =>
      rw [foldl_step_closed parens (foldl_step_of_forms inside), ih]
      rfl
  | @unclosed _ name span _ arguments _ parens ih =>
      obtain ⟨fs, finished⟩ := nesting
      obtain ⟨depth, hdepth⟩ := Option.isSome_iff_exists.1 parens
      let f : OpenFunction := ⟨name, span.start, 0, []⟩
      rw [List.foldl_cons]
      change (List.foldl Nesting.step ⟨f :: fs, finished⟩ _).tokens stop = _
      rw [ih, foldl_add_inside (f := f) hdepth, tokens_inside]
      simp [finishFunction, add, f]

end Nesting

theorem nest_eq_iff {stop : Nat} {lexemes : List PlacedLexeme} {tokens : List Token} :
    Token.nest stop lexemes = tokens ↔ ∃ cut, Forms stop cut lexemes tokens := by
  constructor
  · rintro rfl
    exact exists_forms_nest stop lexemes
  · rintro ⟨cut, h⟩
    rw [Token.nest, Nesting.tokens_foldl_step_of_forms h, Nesting.empty,
      Nesting.foldl_add_outside]
    simp [Nesting.tokens, Nesting.closeAll]

end CssSelectors
