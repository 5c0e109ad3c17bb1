import CssSelectors.Proofs.Tokens.Pieces

/-!
# Text with escapes

A code point has many spellings: itself where it may stand as it is, a backslash in front of
it, or a backslash in front of its number. However the code points of a name or of quoted text
are spelt, the token holds the code points.
-/

namespace CssSelectors

open CodePoint

variable {c : Char} {piece digits rest s t : List Char} {allowed : Char → Bool}

/-! ## Spellings -/

/-- Numbers that no code point has, and zero. -/
def Unwritable (n : Nat) : Prop :=
  n = 0 ∨ 0xD800 ≤ n ∧ n ≤ 0xDFFF ∨ 0x10FFFF < n

def HexRun (digits : List Char) : Prop :=
  1 ≤ digits.length ∧ digits.length ≤ 6 ∧ ∀ d ∈ digits, isHexDigit d = true

/-- The spellings of a code point that begin with a backslash. A number that no code point has
spells the replacement. -/
inductive EscapeOf : Char → List Char → Prop
  | itself {c : Char} (hhex : isHexDigit c = false) (hnewline : c ≠ '\n') : EscapeOf c ['\\', c]
  | number {c blank : Char} {digits : List Char} (hdigits : HexRun digits)
      (hvalue : hexValue digits = c.toNat) (hzero : c.toNat ≠ 0) (hblank : isBlank blank = true) :
      EscapeOf c ('\\' :: (digits ++ [blank]))
  | unwritable {blank : Char} {digits : List Char} (hdigits : HexRun digits)
      (hvalue : Unwritable (hexValue digits)) (hblank : isBlank blank = true) :
      EscapeOf '\uFFFD' ('\\' :: (digits ++ [blank]))

/-- The spellings of a code point where those that are `allowed` may stand as they are. -/
inductive SpellingOf (allowed : Char → Bool) : Char → List Char → Prop
  | plain {c : Char} (h : allowed c = true) : SpellingOf allowed c [c]
  | escape {c : Char} {piece : List Char} (h : EscapeOf c piece) : SpellingOf allowed c piece

/-- The spellings of a name whose first code point may stand as it is if it is `allowed`. -/
inductive NameSpelling : (Char → Bool) → List Char → List Char → Prop
  | nil {allowed : Char → Bool} : NameSpelling allowed [] []
  | cons {allowed : Char → Bool} {c : Char} {piece s t : List Char}
      (head : SpellingOf allowed c piece) (tail : NameSpelling isIdent s t) :
      NameSpelling allowed (c :: s) (piece ++ t)

def isPlainBetween (quote c : Char) : Bool :=
  c ≠ quote && c ≠ '\\' && c ≠ '\n'

/-- The spellings of quoted text, which may go on behind a backslash and a newline. -/
inductive QuotedSpelling (quote : Char) : List Char → List Char → Prop
  | nil : QuotedSpelling quote [] []
  | cons {c : Char} {piece s t : List Char} (head : SpellingOf (isPlainBetween quote) c piece)
      (tail : QuotedSpelling quote s t) : QuotedSpelling quote (c :: s) (piece ++ t)
  | newline {s t : List Char} (tail : QuotedSpelling quote s t) :
      QuotedSpelling quote s ('\\' :: '\n' :: t)

/-! ## Escapes are decoded -/

theorem isHexDigit_of_isBlank (h : isBlank c = true) : isHexDigit c = false := by
  have hbreak : ∀ c ∈ breakChars, isHexDigit c = false := forall_mem_breakChars_iff.2 (by decide)
  exact hbreak c (mem_breakChars_of_isBlank h)

theorem ofNumber_toNat (h : c.toNat ≠ 0) : ofNumber c.toNat = c := by
  have hvalid : c.toNat.isValidChar := c.valid
  rw [ofNumber, if_neg h, if_pos hvalid, Char.ofNat_toNat]

theorem ofNumber_of_unwritable {n : Nat} (h : Unwritable n) : ofNumber n = '\uFFFD' := by
  unfold ofNumber
  split
  · rfl
  · rw [if_neg]
    · rfl
    · unfold Unwritable at h
      unfold Nat.isValidChar
      omega

namespace Lexeme

theorem escape_of_isHexDigit_eq_false (h : isHexDigit c = false) (rest : List Char) :
    escape (c :: rest) = (c, rest) := by
  simp [escape, h]

/-- The digits of an escape end at the blank behind them, also where there are six. -/
theorem takeWhile_take_hexRun {blank : Char} (hdigits : HexRun digits)
    (hblank : isBlank blank = true) (rest : List Char) :
    ((digits ++ blank :: rest).take 6).takeWhile isHexDigit = digits := by
  obtain ⟨-, hlength, hhex⟩ := hdigits
  rw [List.take_append, List.take_of_length_le hlength, List.takeWhile_append_of_pos hhex]
  cases 6 - digits.length with
  | zero => simp
  | succ n => simp [isHexDigit_of_isBlank hblank]

theorem escape_hexRun {blank : Char} (hdigits : HexRun digits) (hblank : isBlank blank = true)
    (rest : List Char) :
    escape (digits ++ blank :: rest) = (ofNumber (hexValue digits), rest) := by
  have htake := takeWhile_take_hexRun hdigits hblank rest
  obtain ⟨hpos, -, -⟩ := hdigits
  unfold escape
  rw [htake]
  cases digits with
  | nil => cases hpos
  | cons digit digits => simp [skipBlank, hblank]

end Lexeme

theorem HexRun.exists_cons (h : HexRun digits) : ∃ d ds, digits = d :: ds ∧ d ≠ '\n' := by
  obtain ⟨hpos, -, hhex⟩ := h
  cases digits with
  | nil => cases hpos
  | cons d ds =>
      have hd : isHexDigit d = true := hhex d List.mem_cons_self
      refine ⟨d, ds, rfl, ?_⟩
      rintro rfl
      cases hd

theorem EscapeOf.exists_of_hexRun {blank : Char} (hdigits : HexRun digits)
    (hblank : isBlank blank = true) (hvalue : ofNumber (hexValue digits) = c) :
    ∃ d body, '\\' :: (digits ++ [blank]) = '\\' :: d :: body ∧ d ≠ '\n' ∧
      ∀ rest, Lexeme.escape (d :: (body ++ rest)) = (c, rest) := by
  obtain ⟨d, ds, rfl, hnewline⟩ := hdigits.exists_cons
  refine ⟨d, ds ++ [blank], rfl, hnewline, fun rest => ?_⟩
  rw [List.append_assoc, List.singleton_append, ← List.cons_append,
    Lexeme.escape_hexRun hdigits hblank, hvalue]

theorem EscapeOf.exists_escape (h : EscapeOf c piece) :
    ∃ d body, piece = '\\' :: d :: body ∧ d ≠ '\n' ∧
      ∀ rest, Lexeme.escape (d :: (body ++ rest)) = (c, rest) := by
  cases h with
  | itself hhex hnewline =>
      exact ⟨c, [], rfl, hnewline, Lexeme.escape_of_isHexDigit_eq_false hhex⟩
  | number hdigits hvalue hzero hblank =>
      exact exists_of_hexRun hdigits hblank (by rw [hvalue, ofNumber_toNat hzero])
  | unwritable hdigits hvalue hblank =>
      exact exists_of_hexRun hdigits hblank (ofNumber_of_unwritable hvalue)

theorem Lexeme.startsEscape_backslash {d : Char} (h : d ≠ '\n') (rest : List Char) :
    startsEscape ('\\' :: d :: rest) = true :=
  startsEscape_cons_iff.2 ⟨rfl, by simpa using h⟩

/-! ## Names -/

theorem isIdent_of_isIdentStart (h : isIdentStart c = true) : isIdent c = true := by
  simp [isIdent, h]

theorem SpellingOf.mono {allowed' : Char → Bool} (h : SpellingOf allowed c piece)
    (hallowed : ∀ c, allowed c = true → allowed' c = true) : SpellingOf allowed' c piece := by
  cases h with
  | plain h => exact .plain (hallowed _ h)
  | escape h => exact .escape h

theorem SpellingOf.ident_append (h : SpellingOf isIdent c piece) (rest : List Char) :
    Lexeme.ident (piece ++ rest) = (c :: (Lexeme.ident rest).1, (Lexeme.ident rest).2) := by
  cases h with
  | plain h => rw [List.singleton_append, Lexeme.ident, if_pos h]
  | escape h =>
      obtain ⟨d, body, rfl, hnewline, hescape⟩ := h.exists_escape
      rw [List.cons_append, List.cons_append, Lexeme.ident, if_neg (by decide),
        if_pos (Lexeme.startsEscape_backslash hnewline _), hescape]

theorem NameSpelling.ident (h : NameSpelling allowed s t)
    (hallowed : ∀ c, allowed c = true → isIdent c = true) : Lexeme.ident t = (s, []) := by
  induction h with
  | nil => rw [Lexeme.ident]
  | cons head _ ih => rw [(head.mono hallowed).ident_append, ih fun _ hc => hc]

theorem NameSpelling.starts (h : NameSpelling isIdentStart s t) (hs : s ≠ []) :
    ∃ c rest, t = c :: rest ∧ c ≠ '-' ∧
      (isIdentStart c || Lexeme.startsEscape (c :: rest)) = true := by
  cases h with
  | nil => exact absurd rfl hs
  | cons head tail =>
      cases head with
      | plain h =>
          refine ⟨_, _, rfl, ?_, by simp [h]⟩
          rintro rfl
          cases h
      | escape h =>
          obtain ⟨d, body, rfl, hnewline, -⟩ := h.exists_escape
          refine ⟨_, _, rfl, by decide, ?_⟩
          rw [List.append_eq, List.cons_append, Lexeme.startsEscape_backslash hnewline,
            Bool.or_true]

namespace Lexeme

theorem isDigit_of_isIdentStart (h : isIdentStart c = true) : c.isDigit = false := by
  apply Bool.eq_false_iff.2
  intro hdigit
  delta isIdentStart Char.isAlpha Char.isUpper Char.isLower at h
  simp only [Char.isDigit, Bool.or_eq_true, Bool.and_eq_true, decide_eq_true_eq,
    UInt32.le_iff_toNat_le] at h hdigit
  change _ ≤ c.toNat ∧ c.toNat ≤ _ at hdigit
  obtain ((⟨hlower, -⟩ | ⟨hlower, -⟩) | rfl) | hlower := h
  · change 65 ≤ c.toNat at hlower
    simp at hdigit
    omega
  · change 97 ≤ c.toNat at hlower
    simp at hdigit
    omega
  · simp at hdigit
  · simp at hdigit
    omega

theorem scan_of_startsName (h : (isIdentStart c || startsEscape (c :: rest)) = true) :
    scan c rest = scanIdentLike (c :: rest) := by
  have hbreak : ∀ c ∈ breakChars, isIdentStart c = false := forall_mem_breakChars_iff.2 (by decide)
  rw [Bool.or_eq_true, startsEscape_cons_iff] at h
  rcases h with hstart | ⟨rfl, hhead⟩
  · have hblank : ¬ isBlank c = true := fun hblank => by
      rw [hbreak c (mem_breakChars_of_isBlank hblank)] at hstart
      cases hstart
    unfold scan
    rw [if_neg hblank, if_neg (by simp [isDigit_of_isIdentStart hstart]), if_pos hstart]
  · change (if startsEscape ('\\' :: rest) then _ else _) = _
    exact if_pos (startsEscape_cons_iff.2 ⟨rfl, hhead⟩)

end Lexeme

/-- What a name is read as, on its own and behind an at sign or a number sign. -/
theorem NameSpelling.scan (h : NameSpelling isIdentStart s t) (hs : s ≠ []) :
    (∃ c rest, t = c :: rest ∧
      Lexeme.scan c rest = (.atom (.ident (String.ofList s)), [])) ∧
    Lexeme.scan '@' t = (.atom (.atKeyword (String.ofList s)), []) ∧
    Lexeme.scan '#' t = (.atom (.hash (String.ofList s) .id), []) := by
  have hident : Lexeme.ident t = (s, []) := h.ident fun _ => isIdent_of_isIdentStart
  obtain ⟨c, rest, rfl, hhyphen, hstarts⟩ := h.starts hs
  have hstartsIdent : Lexeme.startsIdent (c :: rest) = true := by
    rw [Lexeme.startsIdent_cons hhyphen, hstarts]
  refine ⟨⟨c, rest, rfl, ?_⟩, ?_, ?_⟩
  · rw [Lexeme.scan_of_startsName hstarts]
    exact Lexeme.scanIdentLike_of_not_paren hident (by simp)
  · change Lexeme.scanAtKeyword _ = _
    rw [Lexeme.scanAtKeyword, if_pos hstartsIdent, hident]
  · have hopens : ((c :: rest).head?.any isIdent || Lexeme.startsEscape (c :: rest)) = true := by
      rw [Bool.or_eq_true] at hstarts ⊢
      exact hstarts.imp_left fun hstart => by simp [isIdent_of_isIdentStart hstart]
    change Lexeme.scanHash _ = _
    rw [Lexeme.scanHash, if_pos hopens, hident, if_pos hstartsIdent]

/-! ## Quoted text -/

variable {quote : Char}

theorem SpellingOf.quoted_append (h : SpellingOf (isPlainBetween quote) c piece)
    (hquote : quote ≠ '\\') (rest : List Char) :
    Lexeme.quoted quote (piece ++ rest) = Lexeme.prepend c (Lexeme.quoted quote rest) := by
  cases h with
  | plain h =>
      obtain ⟨⟨hc, hbackslash⟩, hnewline⟩ : (c ≠ quote ∧ c ≠ '\\') ∧ c ≠ '\n' := by
        simpa [isPlainBetween] using h
      rw [List.singleton_append, Lexeme.quoted, if_neg hc, if_neg hnewline, if_neg hbackslash]
  | escape h =>
      obtain ⟨d, body, rfl, hnewline, hescape⟩ := h.exists_escape
      rw [List.cons_append, List.cons_append, Lexeme.quoted, if_neg hquote.symm,
        if_neg (by decide), if_pos rfl, if_neg (by simp),
        if_pos (Lexeme.startsEscape_backslash hnewline _), hescape]

theorem QuotedSpelling.quoted_append (h : QuotedSpelling quote s t) (hquote : quote ≠ '\\')
    (rest : List Char) : Lexeme.quoted quote (t ++ quote :: rest) = (some s, rest) := by
  induction h with
  | nil => rw [List.nil_append, Lexeme.quoted, if_pos rfl]
  | cons head _ ih => rw [List.append_assoc, head.quoted_append hquote, ih]; rfl
  | newline _ ih =>
      rw [List.cons_append, List.cons_append, Lexeme.quoted, if_neg hquote.symm, if_neg (by decide),
        if_pos rfl, if_neg (by simp), if_neg (by simp [Lexeme.startsEscape])]
      exact ih

/-! ## Texts of one token -/

theorem tokenize_of_scan (text : String) {a : Atom} (htext : text.toList = c :: rest)
    (hscan : Lexeme.scan c rest = (.atom a, [])) :
    tokenize text =
      [.atom a ⟨0, text.length⟩, .atom .eof ⟨text.length, text.length⟩] := by
  have hlength : text.length = rest.length + 1 := by
    rw [← String.length_toList, htext, List.length_cons]
  have hlexemes : placedLexemes 0 (c :: rest) = [⟨.atom a, ⟨0, text.length⟩⟩] := by
    rw [placedLexemes, hscan, placedLexemes, hlength]
    simp
  rw [tokenize, tokensFrom, htext, hlexemes, List.length_cons, ← hlength, Nat.zero_add]
  cases a <;> rfl

/-- A name is read as its code points however they are spelt, and so is quoted text. -/
theorem tokenize_spelling (s t : String) :
    (s ≠ "" → NameSpelling isIdentStart s.toList t.toList →
      tokenize t =
        [.atom (.ident s) ⟨0, t.length⟩, .atom .eof ⟨t.length, t.length⟩] ∧
      tokenize ("@" ++ t) =
        [.atom (.atKeyword s) ⟨0, t.length + 1⟩, .atom .eof ⟨t.length + 1, t.length + 1⟩] ∧
      tokenize ("#" ++ t) =
        [.atom (.hash s .id) ⟨0, t.length + 1⟩, .atom .eof ⟨t.length + 1, t.length + 1⟩]) ∧
    ∀ quote, quote = '"' ∨ quote = '\'' → QuotedSpelling quote s.toList t.toList →
      tokenize (quote.toString ++ t ++ quote.toString) =
        [.atom (.string s) ⟨0, t.length + 2⟩, .atom .eof ⟨t.length + 2, t.length + 2⟩] := by
  constructor
  · intro hs hname
    obtain ⟨⟨c, rest, htext, hident⟩, hat, hhash⟩ := hname.scan (by simpa using hs)
    rw [String.ofList_toList] at hident hat hhash
    refine ⟨tokenize_of_scan t htext hident, ?_, ?_⟩
    · rw [tokenize_of_scan ("@" ++ t) (by simp) hat, String.length_append, Nat.add_comm]
      rfl
    · rw [tokenize_of_scan ("#" ++ t) (by simp) hhash, String.length_append, Nat.add_comm]
      rfl
  · intro quote hquote hquoted
    have hread := hquoted.quoted_append (by rcases hquote with rfl | rfl <;> decide) []
    have hscan : Lexeme.scan quote (t.toList ++ [quote]) = (.atom (.string s), []) := by
      have hstring : Lexeme.scanString quote (t.toList ++ [quote]) = (.atom (.string s), []) := by
        rw [Lexeme.scanString, hread]
        simp
      rcases hquote with rfl | rfl <;> exact hstring
    have hlength : (quote.toString ++ t ++ quote.toString).length = t.length + 2 := by
      simp [String.length_append]
      omega
    rw [tokenize_of_scan _ (by simp) hscan, hlength]

/-- A name with an escaped hyphen and the number of a letter, and quoted text with an escaped
quote, a line that goes on and the number zero. -/
theorem tokenize_spelling_mixed :
    NameSpelling isIdentStart "-é1".toList "\\-\\0000e9 1".toList ∧
    tokenize "#\\-\\0000e9 1" = [.atom (.hash "-é1" .id) ⟨0, 12⟩, .atom .eof ⟨12, 12⟩] ∧
    QuotedSpelling '"' "\"\uFFFD".toList "\\\"\\\n\\0\t".toList ∧
    tokenize "\"\\\"\\\n\\0\t\"" =
      [.atom (.string "\"\uFFFD") ⟨0, 9⟩, .atom .eof ⟨9, 9⟩] := by
  have hhyphen : EscapeOf '-' ['\\', '-'] := .itself (by decide) (by decide)
  have hdigits : HexRun ['0', '0', '0', '0', 'e', '9'] :=
    ⟨by decide, by decide, List.all_eq_true.1 (by decide)⟩
  have haccent : EscapeOf 'é' ('\\' :: (['0', '0', '0', '0', 'e', '9'] ++ [' '])) :=
    .number hdigits (by decide) (by decide) (by decide)
  have hname : NameSpelling isIdentStart "-é1".toList "\\-\\0000e9 1".toList :=
    .cons (.escape hhyphen) (.cons (.escape haccent) (.cons (.plain (c := '1') (by decide)) .nil))
  have hquote : EscapeOf '"' ['\\', '"'] := .itself (by decide) (by decide)
  have hzero : HexRun ['0'] := ⟨by decide, by decide, List.all_eq_true.1 (by decide)⟩
  have hnull : EscapeOf '\uFFFD' ('\\' :: (['0'] ++ ['\t'])) :=
    .unwritable hzero (.inl (by decide)) (by decide)
  have hquoted : QuotedSpelling '"' "\"\uFFFD".toList "\\\"\\\n\\0\t".toList :=
    .cons (.escape hquote) (.newline (.cons (.escape hnull) .nil))
  have hhash := ((tokenize_spelling "-é1" "\\-\\0000e9 1").1 (by decide) hname).2.2
  have hstring := (tokenize_spelling "\"\uFFFD" "\\\"\\\n\\0\t").2 '"' (.inl rfl) hquoted
  exact ⟨hname, hhash, hquoted, hstring⟩

end CssSelectors
