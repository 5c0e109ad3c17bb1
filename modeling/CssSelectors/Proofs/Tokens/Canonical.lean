import CssSelectors.Proofs.Tokens.Escapes
import CssSelectors.Proofs.Tokens.Sources

/-!
# Canonical tokens

What tokens are made of shows in them: a name is never empty, and a lone code point is one that
nothing else begins with. No token stands behind one that would have taken some of its text.
-/

namespace CssSelectors

open CodePoint

/-! ## What tokens say -/

/-- The name in a lexeme, if it has one. The unit of a dimension is one. -/
def Lexeme.name? : Lexeme → Option String
  | .function name => some name
  | .atom (.ident name) => some name
  | .atom (.atKeyword name) => some name
  | .atom (.hash name _) => some name
  | .atom (.dimension _ unit) => some unit
  | _ => none

def IsName (name : String) (text : List Char) : Prop :=
  ∃ inner eof, tokenize (String.ofList text) = [.atom (.ident name) inner, .atom .eof eof]

/-- What holds of every token in the text, taken on its own. -/
structure Token.Canonical (text : List Char) (t : Token) : Prop where
  name : ∀ name, t.lexeme.name? = some name → name ≠ ""
  delim : ∀ c, t.lexeme = .atom (.delim c) → CodePoint.isDelim c = true
  comment : ∀ body, t.lexeme = .atom (.comment body) → ¬ ['*', '/'] <:+: body.toList
  hash : ∀ name kind span, t = .atom (.hash name kind) span →
    (kind = .id ↔ IsName name (text.extract (span.start + 1) span.stop))

def Lexeme.isName : Lexeme → Bool
  | .function _ => true
  | .atom (.ident _) => true
  | .atom _ => false

/-- Whether an atom takes what the lexeme begins with, so that the lexeme never stands directly
behind it. -/
def Atom.takes : Atom → Lexeme → Bool
  | .whitespace, next => next = .atom .whitespace
  | .ident _, next => next.isName || next = .atom .leftParen
  | .atKeyword _, next => next.isName
  | .hash _ _, next => next.isName
  | .number _, next => next.isName
  | .dimension _ _, next => next.isName
  | _, _ => false

namespace Lexeme

variable {c d : Char} {text rest rest' : List Char} {lexeme : Lexeme} {a : Atom}

/-! ## Names and comments -/

theorem ident_ne_nil_of_startsIdent {name : List Char} (h : startsIdent text = true)
    (hread : ident text = (name, rest)) : String.ofList name ≠ "" := by
  cases text with
  | nil => cases h
  | cons c text =>
      have hne := ident_ne_nil (isIdent_or_startsEscape h)
      rw [hread] at hne
      simpa using hne

theorem Origin.name_ne_empty (h : Origin c text lexeme rest) {name : String}
    (hname : lexeme.name? = some name) : name ≠ "" := by
  cases h
  case mark a mark => cases a <;> cases hname <;> cases mark
  all_goals cases hname
  case dimension united unit_read => exact ident_ne_nil_of_startsIdent united unit_read
  case ident starts read _ => exact ident_ne_nil_of_startsIdent starts read
  case function starts read => exact ident_ne_nil_of_startsIdent starts read
  case atKeyword starts read => exact ident_ne_nil_of_startsIdent starts read
  case hash starts read =>
    cases text with
    | nil => cases starts
    | cons d text =>
        have hne := ident_ne_nil (by simpa using starts)
        rw [read] at hne
        simpa using hne

theorem comment_prefix_text (text : List Char) : (comment text).1 <+: text := by
  fun_induction comment text with
  | case1 => exact List.nil_prefix
  | case2 => exact List.nil_prefix
  | case3 c rest _ _ ih => exact List.prefix_cons_inj c |>.2 ih

theorem not_infix_comment (text : List Char) : ¬ ['*', '/'] <:+: (comment text).1 := by
  fun_induction comment text with
  | case1 => simp
  | case2 => simp
  | case3 c rest hclose _ ih =>
      intro h
      obtain hprefix | hinfix := List.infix_cons_iff.1 h
      · obtain ⟨rfl, hslash⟩ := List.cons_prefix_cons.1 hprefix
        obtain ⟨tail, rfl⟩ := hslash.trans (comment_prefix_text rest)
        exact hclose tail rfl rfl
      · exact ih hinfix

theorem Origin.isDelim (h : Origin c text (.atom (.delim d)) rest) :
    CodePoint.isDelim d = true := by
  cases h with
  | mark mark => cases mark
  | delim delim _ => exact delim

theorem Origin.not_infix_comment {body : String} (h : Origin c text (.atom (.comment body)) rest) :
    ¬ ['*', '/'] <:+: body.toList := by
  cases h with
  | mark mark => cases mark
  | @comment inside body _ _ _ read =>
      have hbody := Lexeme.not_infix_comment inside
      rw [read] at hbody
      rwa [String.toList_ofList]

/-! ## Neighbours -/

theorem Origin.startsIdent_of_isName (h : Origin c text lexeme rest)
    (hname : lexeme.isName = true) : startsIdent (c :: text) = true := by
  cases h with
  | ident starts _ _ => exact starts
  | function starts _ => exact starts
  | @mark a mark =>
      cases a
      case ident => cases mark
      all_goals cases hname
  | _ => cases hname

theorem Origin.isBlank_of_whitespace (h : Origin c text (.atom .whitespace) rest) :
    isBlank c = true := by
  cases h with
  | whitespace blank => exact blank
  | mark mark => cases mark

theorem Origin.eq_of_leftParen (h : Origin c text (.atom .leftParen) rest) : c = '(' := by
  cases h with
  | mark mark => exact (Option.some.inj mark).symm

theorem startsIdent_eq_false_of_ident {name : List Char} (h : ident text = (name, rest)) :
    startsIdent rest = false := by
  have hhalts := halts_ident text
  rw [h] at hhalts
  exact startsIdent_eq_false_of_halts hhalts

theorem Origin.takes_eq_false (h : Origin c text (.atom a) (d :: rest))
    (h' : Origin d rest lexeme rest') : a.takes lexeme = false := by
  have hname : startsIdent (d :: rest) = false → lexeme.isName = false := fun hstarts =>
    Bool.eq_false_iff.2 fun hname => by simp [h'.startsIdent_of_isName hname] at hstarts
  generalize hbehind : d :: rest = behind at h hname
  cases h with
  | whitespace blank =>
      have hblank := List.head?_dropWhile_not isBlank text
      rw [← hbehind] at hblank
      refine decide_eq_false fun hlexeme => ?_
      subst hlexeme
      simp [h'.isBlank_of_whitespace] at hblank
  | ident starts read bare =>
      refine Bool.or_eq_false_iff.2 ⟨hname (startsIdent_eq_false_of_ident read), ?_⟩
      refine decide_eq_false fun hlexeme => ?_
      subst hlexeme hbehind
      exact bare (congrArg some h'.eq_of_leftParen)
  | number starts read unitless bare => exact hname unitless
  | dimension starts read united unit_read => exact hname (startsIdent_eq_false_of_ident unit_read)
  | hash sign starts read => exact hname (startsIdent_eq_false_of_ident read)
  | atKeyword sign starts read => exact hname (startsIdent_eq_false_of_ident read)
  | mark mark =>
      cases a
      all_goals first | rfl | cases mark
  | _ => rfl

/-! ## Hashes -/

theorem starts_eq_false_of_startsIdent_hyphen (h : startsIdent ('-' :: text) = true) :
    Numeral.starts ('-' :: text) = false := by
  cases text with
  | nil => cases h
  | cons d text =>
      have hd : d ≠ '.' ∧ d.isDigit = false := by
        simp only [startsIdent, Bool.or_eq_true, decide_eq_true_eq] at h
        obtain (hstart | rfl) | hescape := h
        · refine ⟨?_, isDigit_of_isIdentStart hstart⟩
          rintro rfl
          cases hstart
        · decide
        · obtain ⟨rfl, -⟩ := startsEscape_cons_iff.1 hescape
          decide
      obtain ⟨hpoint, hdigit⟩ := hd
      simp [Numeral.starts, Sign.read, Sign.ofChar?, hpoint, hdigit]

/-- Text in which a name begins is read as a name, if it is not the end of a markup comment. -/
theorem scan_of_startsIdent (h : startsIdent (c :: text) = true)
    (hcdc : ∀ tail, c :: text ≠ '-' :: '-' :: '>' :: tail) :
    scan c text = scanIdentLike (c :: text) := by
  by_cases hc : c = '-'
  · subst hc
    change scanHyphen text = _
    rw [scanHyphen, if_neg (by simp [starts_eq_false_of_startsIdent_hyphen h]), if_pos h]
    rintro tail rfl
    exact hcdc tail rfl
  · exact scan_of_startsName (by rwa [startsIdent_cons hc] at h)

end Lexeme

theorem isName_of_startsIdent {text name : List Char} (h : Lexeme.startsIdent text = true)
    (hread : Lexeme.ident text = (name, [])) : IsName (String.ofList name) text := by
  cases text with
  | nil => cases h
  | cons c text =>
      have hcdc : ∀ tail, c :: text ≠ '-' :: '-' :: '>' :: tail := by
        rintro tail heq
        -- The name would end before the `>`.
        have hhalts : Lexeme.ident ('-' :: '-' :: '>' :: tail) = (['-', '-'], '>' :: tail) := by
          simp [Lexeme.ident, isIdent, isIdentStart, Lexeme.startsEscape]
        rw [heq, hhalts] at hread
        cases hread
      have hscan : Lexeme.scan c text = (.atom (.ident (String.ofList name)), []) := by
        rw [Lexeme.scan_of_startsIdent h hcdc]
        exact Lexeme.scanIdentLike_of_not_paren hread (by simp)
      exact ⟨_, _, tokenize_of_scan _ String.toList_ofList hscan⟩

theorem IsName.startsIdent {text : List Char} {name : String} (h : IsName name text) :
    Lexeme.startsIdent text = true := by
  obtain ⟨inner, eof, htokens⟩ := h
  rw [tokenize, tokensFrom, String.toList_ofList] at htokens
  obtain ⟨cut, hforms⟩ :=
    nest_eq_iff.1 (List.append_inj_left' htokens rfl : Token.nest _ _ = [.atom (.ident name) inner])
  generalize hlexemes : placedLexemes 0 text = lexemes at hforms
  cases hforms with
  | atom rest =>
      cases text with
      | nil =>
          rw [placedLexemes] at hlexemes
          cases hlexemes
      | cons c text =>
          rw [placedLexemes] at hlexemes
          have horigin := Lexeme.origin_scan c text
          have hlexeme : (Lexeme.scan c text).1 = .atom (.ident name) :=
            congrArg PlacedLexeme.lexeme (List.cons.inj hlexemes).1
          rw [hlexeme] at horigin
          exact horigin.startsIdent_of_isName rfl

namespace Lexeme

/-- A hash is one of a name where its text behind the sign is a name on its own. -/
theorem Origin.hash_iff {c : Char} {text rest source : List Char} {name : String}
    {kind : HashKind} (h : Origin c text (.atom (.hash name kind)) rest)
    (hsource : text = source ++ rest) : kind = .id ↔ IsName name source := by
  cases h with
  | mark mark => cases mark
  | @hash name _ sign starts read =>
      subst hsource
      have hstop : (Lexeme.ident (source ++ rest)).2 = [] ++ rest := congrArg Prod.snd read
      have hcut : ¬ MakesEscape [] rest := by simp [MakesEscape]
      have hname := ident_of_append_of_not_makesEscape hstop hcut
      rw [read] at hname
      rw [← startsIdent_eq_of_ident hstop hcut]
      constructor
      · intro hkind
        have hstarts : startsIdent source = true := by
          by_contra hstarts
          rw [if_neg hstarts] at hkind
          cases hkind
        exact isName_of_startsIdent hstarts hname
      · intro hsource
        rw [if_pos hsource.startsIdent]

end Lexeme

/-! ## Tokens -/

theorem Token.canonical_of_scan {text tail : List Char} {c : Char} {middle : Nat} {t : Token}
    (hsource : text.drop t.span.start = c :: tail)
    (hscan : Lexeme.scan c tail = (t.lexeme, text.drop middle)) (hlt : t.span.start < middle)
    (hatom : ∀ a span, t = .atom a span → span.stop = middle) : t.Canonical text := by
  have horigin := Lexeme.origin_of_scan hscan
  constructor
  · exact fun name hname => horigin.name_ne_empty hname
  · intro d hd
    rw [hd] at horigin
    exact horigin.isDelim
  · intro body hbody
    rw [hbody] at horigin
    exact horigin.not_infix_comment
  · rintro name kind span rfl
    obtain rfl := hatom _ _ rfl
    have htail : tail = text.drop (span.start + 1) := by
      rw [← List.tail_drop, show text.drop span.start = c :: tail from hsource, List.tail_cons]
    apply horigin.hash_iff
    rw [htail]
    exact drop_eq_extract_append text hlt

/-- The tokens of a text are canonical, and no token stands behind an atom that would have taken
some of its text. -/
theorem tokenize_canonical (text : String) {level : List Token}
    (hlevel : Token.Level (tokenize text) level) :
    (∀ t ∈ level, t.Canonical text.toList) ∧
      ∀ a span next, [.atom a span, next] <:+: level → a.takes next.lexeme = false := by
  constructor
  · intro t ht
    obtain ⟨c, tail, middle, hsource, hscan, hlt, -, hatom⟩ | rfl := hlevel.exists_scan ht
    · exact Token.canonical_of_scan hsource hscan hlt hatom
    · exact ⟨nofun, nofun, nofun, nofun⟩
  · intro a span next hrun
    obtain ⟨start, stop, hoccupies⟩ | heof := hlevel.exists_occupies_run hrun
    · obtain ⟨c, tail, middle, -, hscan, -, -, hatom⟩ := hoccupies.exists_scan
      obtain ⟨-, hnext⟩ := hatom a span rfl
      obtain ⟨d, tail', middle', hsource', hscan', -⟩ := hnext.exists_scan
      rw [hnext.tiles.start_eq rfl] at hsource'
      rw [hsource'] at hscan
      exact (Lexeme.origin_of_scan hscan).takes_eq_false (Lexeme.origin_of_scan hscan')
    · obtain rfl : next = .atom .eof ⟨text.length, text.length⟩ := by simpa using heof
      cases a <;> rfl

/-- In `f(#-a/*x*/ #1)` the first hash is one of a name and the second is not. -/
theorem tokenize_canonical_hash :
    let first : Token := .atom (.hash "-a" .id) ⟨2, 5⟩
    let second : Token := .atom (.hash "1" .unrestricted) ⟨11, 13⟩
    let level : List Token :=
      [first, .atom (.comment "x") ⟨5, 10⟩, .atom .whitespace ⟨10, 11⟩, second]
    tokenize "f(#-a/*x*/ #1)" = [.function "f" level ⟨0, 14⟩, .atom .eof ⟨14, 14⟩] ∧
      IsName "-a" ['-', 'a'] ∧ ¬ IsName "1" ['1'] ∧
        Atom.whitespace.takes second.lexeme = false := by
  intro first second level
  have htokens : tokenize "f(#-a/*x*/ #1)" =
      [.function "f" level ⟨0, 14⟩, .atom .eof ⟨14, 14⟩] := by with_unfolding_all rfl
  have hlevel : Token.Level (tokenize "f(#-a/*x*/ #1)") level := by
    rw [htokens]
    exact .arguments .outermost List.mem_cons_self
  obtain ⟨hcanonical, hnext⟩ := tokenize_canonical "f(#-a/*x*/ #1)" hlevel
  refine ⟨htokens, ?_, fun hname => ?_, ?_⟩
  · exact ((hcanonical first (by simp [level])).hash "-a" .id ⟨2, 5⟩ rfl).1 rfl
  · have hsecond := (hcanonical second (by simp [level])).hash "1" .unrestricted ⟨11, 13⟩ rfl
    cases hsecond.2 hname
  · exact hnext .whitespace ⟨10, 11⟩ second ⟨[first, .atom (.comment "x") ⟨5, 10⟩], [], rfl⟩

end CssSelectors
