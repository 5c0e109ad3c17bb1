import CssSelectors.Proofs.Tokens.Cutting.Lexemes
import CssSelectors.Proofs.Tokens.Tiling
import Mathlib.Data.List.TakeWhile

/-!
# Tokens on their own

A run of tokens is what the tokens of its own text are, wherever it stands: at the outermost
level or among the arguments of a function, however deep. Only a token that the newline behind
it makes what it is cannot be the last one of a run.
-/

namespace CssSelectors

/-! ## Spans from another start -/

def Span.rebase (k : Nat) (span : Span) : Span :=
  ⟨span.start - k, span.stop - k⟩

def PlacedLexeme.rebase (k : Nat) (placed : PlacedLexeme) : PlacedLexeme :=
  ⟨placed.lexeme, placed.span.rebase k⟩

mutual

/-- The token with all spans in it counted from the offset `k` on. -/
def Token.rebase (k : Nat) : Token → Token
  | .atom a span => .atom a (span.rebase k)
  | .function name arguments span => .function name (rebaseAll k arguments) (span.rebase k)

def Token.rebaseAll (k : Nat) : List Token → List Token
  | [] => []
  | token :: tokens => token.rebase k :: rebaseAll k tokens

end

namespace Token

variable {k depth : Nat} {tokens : List Token}

theorem rebaseAll_eq_map (k : Nat) (tokens : List Token) :
    rebaseAll k tokens = tokens.map (rebase k) := by
  induction tokens with
  | nil => rw [rebaseAll, List.map_nil]
  | cons token tokens ih => rw [rebaseAll, List.map_cons, ih]

theorem parens_rebaseAll (k depth : Nat) (tokens : List Token) :
    parens depth (rebaseAll k tokens) = parens depth tokens := by
  fun_induction parens depth tokens with
  | case1 => rw [rebaseAll, parens]
  | case2 depth span tokens ih => rw [rebaseAll, rebase, parens, ih]
  | case3 => rw [rebaseAll, rebase, parens]
  | case4 depth span tokens ih => rw [rebaseAll, rebase, parens, ih]
  | case5 depth t tokens hleft hzero hsucc ih =>
      rw [rebaseAll, parens, ih]
      all_goals
        cases t
        all_goals simp_all [rebase]

end Token

namespace Forms

variable {stop : Nat} {cut : Bool} {lexemes : List PlacedLexeme} {tokens : List Token}

theorem rebase (h : Forms stop cut lexemes tokens) (k : Nat) :
    Forms (stop - k) cut (lexemes.map (PlacedLexeme.rebase k)) (Token.rebaseAll k tokens) := by
  induction h with
  | nil => exact .nil
  | atom _ ih => exact .atom ih
  | closed _ parens _ ihInside ih =>
      rw [Token.rebaseAll, Token.rebase, List.map_cons, List.map_append, List.map_cons]
      exact .closed ihInside ((Token.parens_rebaseAll k 0 _).trans parens) ih
  | unclosed _ parens ih =>
      rw [Token.rebaseAll, Token.rebase, Token.rebaseAll, List.map_cons]
      exact .unclosed ih (by rwa [Token.parens_rebaseAll])

theorem change_stop (h : Forms stop false lexemes tokens) (stop' : Nat) :
    Forms stop' false lexemes tokens := by
  generalize hwhole : false = whole at h
  induction h with
  | nil => exact .nil
  | atom _ ih => exact .atom (ih hwhole)
  | closed _ parens _ ihInside ih => exact .closed (ihInside rfl) parens (ih hwhole)
  | unclosed => cases hwhole

end Forms

/-! ## Lexemes of a slice -/

/-- Every function among the lexemes has a closing parenthesis behind it. -/
def Closes : List PlacedLexeme → Prop
  | [] => True
  | ⟨.function _, _⟩ :: lexemes => (∃ span, ⟨.atom .rightParen, span⟩ ∈ lexemes) ∧ Closes lexemes
  | ⟨.atom _, _⟩ :: lexemes => Closes lexemes

theorem Closes.append {front back : List PlacedLexeme} (h : Closes front) (h' : Closes back) :
    Closes (front ++ back) := by
  fun_induction Closes front with
  | case1 => exact h'
  | case2 name span front ih =>
      obtain ⟨⟨close, hclose⟩, hfront⟩ := h
      exact ⟨⟨close, List.mem_append_left back hclose⟩, ih hfront⟩
  | case3 a span front ih => exact ih h

theorem Forms.closes {stop : Nat} {lexemes : List PlacedLexeme} {tokens : List Token}
    (h : Forms stop false lexemes tokens) : Closes lexemes := by
  generalize hwhole : false = whole at h
  induction h with
  | nil => trivial
  | atom _ ih => exact ih hwhole
  | closed _ _ _ ihInside ih =>
      exact ⟨⟨_, List.mem_append_right _ List.mem_cons_self⟩, (ihInside rfl).append (ih hwhole)⟩
  | unclosed => cases hwhole

theorem drop_eq_extract_append (text : List Char) {start stop : Nat} (h : start ≤ stop) :
    text.drop start = text.extract start stop ++ text.drop stop := by
  have hdrop : text.drop stop = (text.drop start).drop (stop - start) := by
    rw [List.drop_drop]
    congr 1
    omega
  rw [List.extract_eq_take_drop, hdrop, List.take_append_drop]

theorem length_extract {text : List Char} {stop : Nat} (start : Nat) (h : stop ≤ text.length) :
    (text.extract start stop).length = stop - start := by
  rw [List.extract_eq_take_drop, List.length_take, List.length_drop]
  omega

/-- Whether the newline behind it makes it what it is: a spoilt string or a lone backslash. -/
def Atom.leansOnNewline : Atom → Bool
  | .badString => true
  | .delim c => c = '\\'
  | _ => false

def Lexeme.leansOnNewline : Lexeme → Bool
  | .atom a => a.leansOnNewline
  | .function _ => false

namespace Lexed

variable {text : List Char} {start middle stop k : Nat} {lexemes : List PlacedLexeme} {c : Char}
  {tail : List Char} {lexeme : Lexeme}

theorem eq_nil (h : Lexed text start start lexemes) : lexemes = [] := by
  generalize hstop : start = stop at h
  cases h with
  | nil => rfl
  | cons _ _ lt _ rest =>
      have := rest.bounds
      omega

theorem mem_extract_of_rightParen {span : Span} (h : Lexed text start stop lexemes)
    (hmem : ⟨.atom .rightParen, span⟩ ∈ lexemes) : ')' ∈ text.extract start stop := by
  obtain ⟨front, back, rfl⟩ := List.append_of_mem hmem
  obtain ⟨middle, hfront, hback⟩ := append_iff.1 h
  obtain ⟨hparen, -, hrest⟩ := cases_rightParen hback
  have hstart := hfront.bounds.1
  have hstop := hrest.bounds.1
  apply List.mem_of_getElem? (i := middle - start)
  rw [List.extract_eq_take_drop, List.getElem?_take_of_lt (by omega), List.getElem?_drop,
    Nat.add_sub_cancel' hstart]
  exact hparen

theorem cases_of_scan (h : Lexed text start stop lexemes) (hlt : start < stop)
    (hsource : text.drop start = c :: tail) (hscan : Lexeme.scan c tail = (lexeme, tail)) :
    ∃ rest, lexemes = ⟨lexeme, ⟨start, start + 1⟩⟩ :: rest ∧ Lexed text (start + 1) stop rest := by
  cases h with
  | nil => omega
  | @cons _ middle _ c' tail' _ rest source scanned lt le hrest =>
      obtain ⟨rfl, rfl⟩ := List.cons.inj (source.symm.trans hsource)
      obtain ⟨rfl, hdrop⟩ := Prod.mk.inj (scanned.symm.trans hscan)
      have hmiddle := congrArg List.length hdrop
      have hlength := congrArg List.length source
      simp only [List.length_drop, List.length_cons] at hmiddle hlength
      obtain rfl : middle = start + 1 := by omega
      exact ⟨rest, rfl, hrest⟩

theorem getLast?_of_makesEscape (h : Lexed text start stop lexemes)
    (hescape : Lexeme.MakesEscape (text.extract start stop) (text.drop stop)) :
    ∃ span, lexemes.getLast? = some ⟨.atom (.delim '\\'), span⟩ := by
  have hbounds := h.bounds
  have hlength := length_extract start hbounds.2
  have hdrop := drop_eq_extract_append text hbounds.1
  obtain ⟨hhead, hslice⟩ := hescape
  obtain ⟨tail, htail⟩ := List.head?_eq_some_iff.1 hhead
  rw [htail] at hdrop
  obtain hslice | hslice := hslice
  · rw [hslice] at hdrop hlength
    rw [List.length_singleton] at hlength
    obtain ⟨rest, rfl, hrest⟩ := h.cases_of_scan (by omega) hdrop rfl
    obtain rfl : stop = start + 1 := by omega
    obtain rfl := hrest.eq_nil
    exact ⟨_, rfl⟩
  · rw [hslice] at hdrop hlength
    rw [List.length_cons, List.length_singleton] at hlength
    obtain ⟨rest, rfl, hrest⟩ := h.cases_of_scan (by omega) hdrop rfl
    have hdrop' : text.drop (start + 1) = '\\' :: '\n' :: tail := by
      rw [← List.drop_drop, hdrop]
      rfl
    obtain ⟨rest, rfl, hrest'⟩ := hrest.cases_of_scan (by omega) hdrop' rfl
    obtain rfl : stop = start + 1 + 1 := by omega
    obtain rfl := hrest'.eq_nil
    exact ⟨_, rfl⟩

/-- A text may be cut where it ends anyway, and behind lexemes that close their functions unless
the last of them leans on the newline behind it. -/
def MayCut (text : List Char) (stop : Nat) (lexemes : List PlacedLexeme) : Prop :=
  stop = text.length ∨
    Closes lexemes ∧ ∀ placed ∈ lexemes.getLast?, placed.lexeme.leansOnNewline = false

theorem MayCut.of_cons {placed : PlacedLexeme} (h : MayCut text stop (placed :: lexemes)) :
    MayCut text stop lexemes := by
  refine h.imp_right fun ⟨hcloses, hlast⟩ => ⟨?_, ?_⟩
  · obtain ⟨_ | _, _⟩ := placed
    · exact hcloses
    · exact hcloses.2
  · intro last hmem
    apply hlast
    rw [List.getLast?_cons, hmem]
    rfl

theorem scan_extract {span : Span} {head : List Char} (rest : Lexed text middle stop lexemes)
    (hcut : MayCut text stop (⟨lexeme, span⟩ :: lexemes))
    (scanned : Lexeme.scan c (head ++ text.drop stop) = (lexeme, text.drop middle)) :
    Lexeme.scan c head = (lexeme, text.extract middle stop) := by
  rw [drop_eq_extract_append text rest.bounds.1] at scanned
  obtain hstop | ⟨hcloses, hlast⟩ := hcut
  · rw [hstop, List.drop_length, List.append_nil, List.append_nil] at scanned
    rw [hstop]
    exact scanned
  · apply Lexeme.scan_of_append scanned
    · intro hescape
      obtain ⟨span, hspan⟩ := rest.getLast?_of_makesEscape hescape
      have := hlast _ (by rw [List.getLast?_cons, hspan]; rfl)
      cases this
    · intro hnil
      have hlength := length_extract middle rest.bounds.2
      rw [hnil, List.length_nil] at hlength
      obtain rfl : stop = middle := by
        have := rest.bounds.1
        omega
      obtain rfl := rest.eq_nil
      have hlexeme : lexeme.leansOnNewline = false := hlast _ rfl
      constructor
      all_goals
        rintro rfl
        cases hlexeme
    · rintro name rfl
      obtain ⟨close, hclose⟩ := hcloses.1
      have hmem := rest.mem_extract_of_rightParen hclose
      refine (Lexeme.opensQuoted_append_of_ne_nil fun hnil => ?_).symm
      have hblank := List.dropWhile_eq_nil_iff.1 hnil _ hmem
      cases hblank

theorem placedLexemes_extract (h : Lexed text start stop lexemes) (hk : k ≤ start)
    (hcut : MayCut text stop lexemes) :
    placedLexemes (start - k) (text.extract start stop) =
      lexemes.map (PlacedLexeme.rebase k) := by
  induction h with
  | nil le =>
      rw [List.extract_eq_take_drop, Nat.sub_self, List.take_zero, placedLexemes, List.map_nil]
  | @cons start middle stop c tail lexeme lexemes source scanned lt le rest ih =>
      have hbounds := rest.bounds
      have hlength := length_extract start hbounds.2
      have hdrop := drop_eq_extract_append text (Nat.le_trans (Nat.le_of_lt lt) hbounds.1)
      obtain ⟨d, head, hhead⟩ : ∃ d head, text.extract start stop = d :: head := by
        apply List.exists_cons_of_length_pos
        omega
      rw [hhead, source, List.cons_append] at hdrop
      obtain ⟨rfl, rfl⟩ := List.cons.inj hdrop
      rw [hhead, List.length_cons] at hlength
      rw [hhead, placedLexemes, rest.scan_extract hcut scanned]
      dsimp only
      have hmiddle : start - k + (head.length + 1 - (text.extract middle stop).length) =
          middle - k := by
        rw [length_extract middle hbounds.2]
        omega
      rw [hmiddle, ih (by omega) hcut.of_cons]
      rfl

end Lexed

/-! ## Tokens on a slice -/

def Token.leansOnNewline : Token → Bool
  | .atom a _ => a.leansOnNewline
  | .function _ _ _ => false

namespace Forms

variable {stop : Nat} {cut : Bool} {lexemes : List PlacedLexeme} {front back tokens : List Token}

theorem exists_append (h : Forms stop cut lexemes (front ++ back)) :
    ∃ cut₁ cut₂ before behind, lexemes = before ++ behind ∧ Forms stop cut₁ before front ∧
      Forms stop cut₂ behind back ∧ (cut₁ = true → cut = true ∧ behind = []) ∧
        (cut₂ = true → cut = true) := by
  induction front generalizing lexemes cut with
  | nil => exact ⟨false, cut, [], lexemes, rfl, .nil, h, by simp, id⟩
  | cons token front ih =>
      generalize hwhole : token :: front ++ back = whole at h
      cases h with
      | nil => cases hwhole
      | atom rest =>
          obtain ⟨rfl, rfl⟩ := List.cons.inj hwhole
          obtain ⟨cut₁, cut₂, before, behind, rfl, hfront, hback, hcut⟩ := ih rest
          exact ⟨cut₁, cut₂, _ :: before, behind, rfl, .atom hfront, hback, hcut⟩
      | closed inside parens rest =>
          obtain ⟨rfl, rfl⟩ := List.cons.inj hwhole
          obtain ⟨cut₁, cut₂, before, behind, rfl, hfront, hback, hcut⟩ := ih rest
          refine ⟨cut₁, cut₂, _, behind, ?_, .closed inside parens hfront, hback, hcut⟩
          rw [List.cons_append, List.append_assoc, List.cons_append]
      | unclosed inside parens =>
          obtain ⟨rfl, hnil⟩ := List.cons.inj hwhole
          obtain ⟨rfl, rfl⟩ := List.append_eq_nil_iff.1 hnil
          exact ⟨true, false, _, [], (List.append_nil _).symm, .unclosed inside parens, .nil,
            by simp, by simp⟩

theorem eq_nil (h : Forms stop cut lexemes []) : lexemes = [] := by
  cases h
  rfl

/-- The last lexeme of tokens is the last of them or the parenthesis that closes it. -/
theorem leansOnNewline_getLast? (h : Forms stop false lexemes tokens)
    (hlast : ∀ token ∈ tokens.getLast?, token.leansOnNewline = false) :
    ∀ placed ∈ lexemes.getLast?, placed.lexeme.leansOnNewline = false := by
  intro placed hplaced
  obtain rfl | ⟨front, token, rfl⟩ := List.eq_nil_or_concat' tokens
  · rw [h.eq_nil] at hplaced
    cases hplaced
  · have htoken : token.leansOnNewline = false := hlast token (by simp)
    obtain ⟨cut₁, cut₂, before, behind, rfl, -, hback, -, hcut⟩ := h.exists_append
    cases hback with
    | atom rest =>
        obtain rfl := rest.eq_nil
        obtain rfl : _ = placed := by simpa using hplaced
        exact htoken
    | closed inside parens rest =>
        obtain rfl := rest.eq_nil
        rw [← List.cons_append, ← List.append_assoc, List.getLast?_concat] at hplaced
        obtain rfl := Option.mem_some_iff.1 hplaced
        rfl
    | unclosed => cases hcut rfl

end Forms

/-- The tokens stand on the code points from `start` up to `stop`, and functions that nothing
closes only where the text ends. -/
def Occupies (text : List Char) (start stop : Nat) (tokens : List Token) : Prop :=
  ∃ cut lexemes, Lexed text start stop lexemes ∧ Forms text.length cut lexemes tokens ∧
    (cut = true → stop = text.length)

namespace Occupies

variable {text : List Char} {start stop : Nat} {tokens front back : List Token}

theorem tiles (h : Occupies text start stop tokens) : Tiles text start stop tokens := by
  obtain ⟨cut, lexemes, hlexed, hforms, hcut⟩ := h
  exact hforms.tiles hlexed rfl hcut

theorem exists_append (h : Occupies text start stop (front ++ back)) :
    ∃ middle, Occupies text start middle front ∧ Occupies text middle stop back := by
  obtain ⟨cut, lexemes, hlexed, hforms, hcut⟩ := h
  obtain ⟨cut₁, cut₂, before, behind, rfl, hfront, hback, hcut₁, hcut₂⟩ := hforms.exists_append
  obtain ⟨middle, hbefore, hbehind⟩ := Lexed.append_iff.1 hlexed
  refine ⟨middle, ⟨cut₁, before, hbefore, hfront, fun h => ?_⟩,
    cut₂, behind, hbehind, hback, fun h => hcut (hcut₂ h)⟩
  obtain ⟨hend, rfl⟩ := hcut₁ h
  cases hbehind
  exact hcut hend

theorem exists_infix (h : Occupies text start stop tokens) (hrun : front <:+: tokens) :
    ∃ start stop, Occupies text start stop front := by
  obtain ⟨before, behind, rfl⟩ := hrun
  obtain ⟨_, hleft, _⟩ := h.exists_append
  obtain ⟨_, _, hfront⟩ := hleft.exists_append
  exact ⟨_, _, hfront⟩

/-- Where a function opens, where its arguments stand and how it ends: at a parenthesis where no
plain one is open, or with the text. -/
theorem exists_call {name : String} {arguments : List Token} {span : Span}
    (h : Occupies text start stop tokens) (hmem : .function name arguments span ∈ tokens) :
    ∃ paren stop, Lexeme.ident (text.drop span.start) = (name.toList, text.drop paren) ∧
      text[paren]? = some '(' ∧ Occupies text (paren + 1) stop arguments ∧
        (text[stop]? = some ')' ∧ span.stop = stop + 1 ∧ Token.parens 0 arguments = some 0 ∨
          stop = text.length ∧ span.stop = stop ∧ (Token.parens 0 arguments).isSome = true) := by
  obtain ⟨before, behind, rfl⟩ := List.append_of_mem hmem
  obtain ⟨_, _, hright⟩ := h.exists_append
  rw [← List.singleton_append] at hright
  obtain ⟨finish, ⟨cut, lexemes, hlexed, hforms, hcut⟩, _⟩ := hright.exists_append
  cases hforms with
  | closed inside parens rest =>
      cases hlexed with
      | cons source scanned lt le hinner =>
          obtain ⟨close, hinside, hclose⟩ := Lexed.append_iff.1 hinner
          obtain ⟨hparen, rfl, _⟩ := Lexed.cases_rightParen hclose
          obtain ⟨paren, hname, hopen, _, rfl⟩ := Lexed.exists_paren source scanned le
          exact ⟨paren, close, hname, hopen, ⟨false, _, hinside, inside, by simp⟩,
            .inl ⟨hparen, rfl, parens⟩⟩
  | unclosed inside parens =>
      cases hlexed with
      | cons source scanned lt le hinner =>
          obtain ⟨paren, hname, hopen, _, rfl⟩ := Lexed.exists_paren source scanned le
          obtain rfl := hcut rfl
          exact ⟨paren, _, hname, hopen, ⟨_, _, hinner, inside, fun _ => rfl⟩,
            .inr ⟨rfl, rfl, parens⟩⟩

theorem exists_arguments {name : String} {arguments : List Token} {span : Span}
    (h : Occupies text start stop tokens) (hmem : .function name arguments span ∈ tokens) :
    ∃ paren stop, Lexeme.ident (text.drop span.start) = (name.toList, text.drop paren) ∧
      text[paren]? = some '(' ∧
        (text[stop]? = some ')' ∧ span.stop = stop + 1 ∨ stop = text.length ∧ span.stop = stop) ∧
          Occupies text (paren + 1) stop arguments := by
  obtain ⟨paren, stop, hname, hopen, harguments, hclose⟩ := h.exists_call hmem
  refine ⟨paren, stop, hname, hopen, ?_, harguments⟩
  exact hclose.imp (fun ⟨hparen, hstop, _⟩ => ⟨hparen, hstop⟩) fun ⟨hend, hstop, _⟩ => ⟨hend, hstop⟩

theorem newline_of_leansOnNewline {token : Token}
    (h : Occupies text start stop (front ++ [token])) (hlast : token.leansOnNewline = true) :
    text[stop]? = some '\n' := by
  obtain ⟨middle, _, cut, lexemes, hlexed, hforms, -⟩ := h.exists_append
  cases hforms with
  | closed => cases hlast
  | unclosed => cases hlast
  | @atom _ a _ _ _ rest =>
      obtain rfl := rest.eq_nil
      cases hlexed with
      | cons source scanned lt le rest =>
          cases rest
          have hshows := Lexed.shows scanned
          rw [← List.head?_drop]
          cases a with
          | badString => exact hshows
          | delim d =>
              obtain ⟨rfl, hdrop, hhead⟩ := hshows
              rw [hdrop]
              exact hhead (by simpa [Token.leansOnNewline, Atom.leansOnNewline] using hlast)
          | _ => cases hlast

theorem tokenize_extract (h : Occupies text start stop tokens)
    (hlast : ∀ token ∈ tokens.getLast?, token.leansOnNewline = false) :
    tokenize (String.ofList (text.extract start stop)) =
      tokens.map (Token.rebase start) ++ [.atom .eof ⟨stop - start, stop - start⟩] := by
  obtain ⟨cut, lexemes, hlexed, hforms, hcut⟩ := h
  have hmayCut : Lexed.MayCut text stop lexemes := by
    cases cut with
    | true => exact .inl (hcut rfl)
    | false => exact .inr ⟨hforms.closes, hforms.leansOnNewline_getLast? hlast⟩
  have hlexemes := hlexed.placedLexemes_extract (Nat.le_refl start) hmayCut
  have hnest : Token.nest (stop - start) (lexemes.map (PlacedLexeme.rebase start)) =
      Token.rebaseAll start tokens := by
    apply nest_eq_iff.2
    cases cut with
    | true =>
        rw [hcut rfl]
        exact ⟨true, hforms.rebase start⟩
    | false => exact ⟨false, (hforms.change_stop stop).rebase start⟩
  rw [Nat.sub_self] at hlexemes
  rw [tokenize, tokensFrom, String.toList_ofList, hlexemes, length_extract start hlexed.bounds.2,
    Nat.zero_add, hnest, Token.rebaseAll_eq_map]

end Occupies

namespace Tiles

variable {text : List Char} {start stop : Nat} {tokens : List Token} {token : Token}

theorem start_eq (h : Tiles text start stop tokens) (hfirst : tokens.head? = some token) :
    token.span.start = start := by
  obtain ⟨rest, rfl⟩ := List.head?_eq_some_iff.1 hfirst
  exact h.1

theorem stop_eq (h : Tiles text start stop tokens) (hlast : tokens.getLast? = some token) :
    token.span.stop = stop := by
  induction tokens generalizing start with
  | nil => cases hlast
  | cons first tokens ih =>
      obtain ⟨-, -, hrest⟩ := h
      cases tokens with
      | nil =>
          obtain rfl : first = token := by simpa using hlast
          exact hrest
      | cons second tokens => exact ih hrest (by simpa using hlast)

end Tiles

/-- The tokens of a text and, at any depth, the arguments of a function among them. -/
inductive Token.Level (tokens : List Token) : List Token → Prop
  | outermost : Level tokens tokens
  | arguments {level arguments : List Token} {name : String} {span : Span}
      (outer : Level tokens level) (mem : .function name arguments span ∈ level) :
      Level tokens arguments

theorem Token.function_mem_of_level {name : String} {level tokens arguments : List Token}
    {span eof : Span} (h : level = tokens ∨ level = tokens ++ [.atom .eof eof])
    (hmem : .function name arguments span ∈ level) : .function name arguments span ∈ tokens := by
  obtain rfl | rfl := h
  · exact hmem
  · simpa using hmem

theorem Token.Level.exists_occupies {text : String} {level : List Token}
    (h : Level (tokenize text) level) :
    ∃ start stop tokens, Occupies text.toList start stop tokens ∧
      (level = tokens ∨ level = tokens ++ [.atom .eof ⟨text.length, text.length⟩]) := by
  induction h with
  | outermost =>
      have hlexed := lexed_placedLexemes (Nat.zero_le text.toList.length)
      obtain ⟨cut, hforms⟩ := exists_forms_nest text.toList.length (placedLexemes 0 text.toList)
      refine ⟨0, _, _, ⟨cut, _, hlexed, hforms, fun _ => rfl⟩, .inr ?_⟩
      rw [tokenize, tokensFrom, Nat.zero_add, String.length_toList]
  | arguments outer mem ih =>
      obtain ⟨start, stop, tokens, hoccupies, hlevel⟩ := ih
      obtain ⟨paren, stop, _, _, _, harguments⟩ :=
        hoccupies.exists_arguments (function_mem_of_level hlevel mem)
      exact ⟨_, _, _, harguments, .inl rfl⟩

/-- Tokens do not depend on what stands around them. Any tokens side by side, at any depth, are
the tokens of their own text, if the last of them does not lean on the newline behind it; so are
the arguments of every function, which end before no newline. -/
theorem tokenize_slice (text : String) {level : List Token}
    (hlevel : Token.Level (tokenize text) level) :
    (∀ first last run, run <:+: level → run.head? = some first → run.getLast? = some last →
      (∀ token ∈ run, token.isEof = false) → last.leansOnNewline = false →
        tokenize (String.ofList (text.toList.extract first.span.start last.span.stop)) =
          run.map (Token.rebase first.span.start) ++
            [.atom .eof ⟨last.span.stop - first.span.start, last.span.stop - first.span.start⟩]) ∧
    (∀ name arguments span, Token.function name arguments span ∈ level →
      ∃ paren stop,
        Lexeme.ident (text.toList.drop span.start) = (name.toList, text.toList.drop paren) ∧
          text.toList[paren]? = some '(' ∧
          (text.toList[stop]? = some ')' ∧ span.stop = stop + 1 ∨
            stop = text.length ∧ span.stop = stop) ∧
          tokenize (String.ofList (text.toList.extract (paren + 1) stop)) =
            arguments.map (Token.rebase (paren + 1)) ++
              [.atom .eof ⟨stop - (paren + 1), stop - (paren + 1)⟩]) := by
  obtain ⟨start, stop, tokens, hoccupies, hlevel⟩ := hlevel.exists_occupies
  constructor
  · intro first last run hrun hfirst hlast heof hleans
    have hinfix : run <:+: tokens := by
      obtain rfl | rfl := hlevel
      · exact hrun
      · obtain hsuffix | hinfix := List.infix_concat_iff.1 hrun
        · obtain rfl | ⟨front, rfl, -⟩ := List.suffix_concat_iff.1 hsuffix
          · cases hfirst
          · cases heof _ (List.mem_append_right front List.mem_cons_self)
        · exact hinfix
    obtain ⟨start, stop, hslice⟩ := hoccupies.exists_infix hinfix
    rw [hslice.tiles.start_eq hfirst, hslice.tiles.stop_eq hlast]
    apply hslice.tokenize_extract
    intro token htoken
    obtain rfl : last = token := Option.some.inj (hlast.symm.trans htoken)
    exact hleans
  · intro name arguments span hmem
    obtain ⟨paren, stop, hname, hopen, hclose, harguments⟩ :=
      hoccupies.exists_arguments (Token.function_mem_of_level hlevel hmem)
    refine ⟨paren, stop, hname, hopen, ?_, harguments.tokenize_extract ?_⟩
    · rwa [← String.length_toList]
    -- A parenthesis or nothing stands behind the arguments, and no newline.
    · intro token htoken
      obtain ⟨front, rfl⟩ := List.getLast?_eq_some_iff.1 htoken
      apply Bool.eq_false_iff.2
      intro hleans
      have hnewline := harguments.newline_of_leansOnNewline hleans
      obtain ⟨hparen, -⟩ | ⟨rfl, -⟩ := hclose
      · rw [hparen] at hnewline
        cases hnewline
      · simp at hnewline

theorem tokenize_slice_nested :
    tokenize "url( 'a') " =
      [.function "url" [.atom .whitespace ⟨4, 5⟩, .atom (.string "a") ⟨5, 8⟩] ⟨0, 9⟩,
        .atom .whitespace ⟨9, 10⟩, .atom .eof ⟨10, 10⟩] := by
  let inner : Token :=
    .function "url" [.atom .whitespace ⟨6, 7⟩, .atom (.string "a") ⟨7, 10⟩] ⟨2, 11⟩
  let outer : Token :=
    .function "f" [inner, .atom .whitespace ⟨11, 12⟩, .atom (.ident "b") ⟨12, 13⟩] ⟨0, 13⟩
  have htokens : tokenize "f(url( 'a') b" = [outer, .atom .eof ⟨13, 13⟩] := by
    with_unfolding_all rfl
  have hlevel : Token.Level (tokenize "f(url( 'a') b")
      [inner, .atom .whitespace ⟨11, 12⟩, .atom (.ident "b") ⟨12, 13⟩] := by
    rw [htokens]
    exact .arguments .outermost List.mem_cons_self
  exact (tokenize_slice "f(url( 'a') b" hlevel).1 inner (.atom .whitespace ⟨11, 12⟩)
    [inner, .atom .whitespace ⟨11, 12⟩] ⟨[], _, rfl⟩ rfl rfl (by simp [Token.isEof, inner]) rfl

end CssSelectors
