import CssSelectors.Proofs.Tokens.Pieces
import CssSelectors.Proofs.Tokens.Sources
import Mathlib.Algebra.Ring.Int.Defs
import Mathlib.Computability.Language

/-!
# Numerals in text

The numerals are a language of code points. A numeric token begins with the longest of them that
the text has at its start, and what the token says about its number is read off that numeral.
-/

namespace CssSelectors

open CodePoint

/-- The longest text of the language that the text begins with. -/
structure IsLongestIn (l : Language Char) (text r : List Char) : Prop where
  mem : r ∈ l
  begins : r <+: text
  longest : ∀ p ∈ l, p <+: text → p.length ≤ r.length

namespace Numeral

/-! ## The language of numerals -/

def signs : Language Char :=
  {['+'], ['-']}

def digits : Language Char :=
  {ds | ds ≠ [] ∧ ∀ c ∈ ds, c.isDigit = true}

/-- Digits, or a point with digits behind it and perhaps digits in front of it. -/
def mantissas : Language Char :=
  digits + (1 + digits) * {['.']} * digits

def exponents : Language Char :=
  {['e'], ['E']} * (1 + signs) * digits

def numerals : Language Char :=
  (1 + signs) * mantissas * (1 + exponents)

/-- A numeral with digits where there have to be some. -/
structure WellFormed (numeral : Numeral) : Prop where
  whole : ∀ c ∈ numeral.whole, c.isDigit = true
  fraction : ∀ ds ∈ numeral.fraction, ds ∈ digits
  mantissa : numeral.whole ≠ [] ∨ numeral.fraction.isSome = true
  exponent : ∀ e ∈ numeral.exponent, (e.letter = 'e' ∨ e.letter = 'E') ∧ e.digits ∈ digits

variable {numeral : Numeral} {text rest post r : List Char}

theorem mem_optional_signs_iff : r ∈ 1 + signs ↔ ∃ sign, Sign.source sign = r := by
  constructor
  · rintro (rfl | rfl | rfl)
    · exact ⟨none, rfl⟩
    · exact ⟨some .plus, rfl⟩
    · exact ⟨some .minus, rfl⟩
  · rintro ⟨_ | _ | _, rfl⟩
    · exact .inl rfl
    · exact .inr (.inl rfl)
    · exact .inr (.inr rfl)

theorem mem_mantissas_iff :
    r ∈ mantissas ↔
      ∃ whole fraction, (∀ c ∈ whole, c.isDigit = true) ∧ (∀ ds ∈ fraction, ds ∈ digits) ∧
        (whole ≠ [] ∨ fraction.isSome = true) ∧ whole ++ fractionSource fraction = r := by
  constructor
  · rintro (⟨hne, hdigits⟩ | ⟨_, ⟨whole, hwhole, _, rfl, rfl⟩, ds, hds, rfl⟩)
    · exact ⟨r, none, hdigits, by simp, .inl hne, by simp [fractionSource]⟩
    · refine ⟨whole, some ds, ?_, ?_, .inr rfl, by simp [fractionSource]⟩
      · rcases hwhole with rfl | hwhole
        · simp
        · exact hwhole.2
      · rintro _ ⟨⟩
        exact hds
  · rintro ⟨whole, _ | ds, hwhole, hfraction, hsome, rfl⟩
    · rw [fractionSource, List.append_nil]
      exact .inl ⟨hsome.resolve_right (by simp), hwhole⟩
    · refine .inr ⟨whole ++ ['.'], ⟨whole, ?_, ['.'], rfl, rfl⟩, ds, hfraction ds rfl, ?_⟩
      · by_cases hne : whole = []
        · exact .inl hne
        · exact .inr ⟨hne, hwhole⟩
      · simp [fractionSource]

theorem mem_optional_exponents_iff :
    r ∈ 1 + exponents ↔
      ∃ exponent, (∀ e ∈ exponent, (e.letter = 'e' ∨ e.letter = 'E') ∧ e.digits ∈ digits) ∧
        exponentSource exponent = r := by
  constructor
  · rintro (rfl | ⟨_, ⟨_, hletter, s, hs, rfl⟩, ds, hds, rfl⟩)
    · exact ⟨none, by simp, rfl⟩
    · obtain ⟨sign, rfl⟩ := mem_optional_signs_iff.1 hs
      rcases hletter with rfl | rfl
      · refine ⟨some ⟨'e', sign, ds⟩, ?_, by simp [exponentSource]⟩
        rintro _ ⟨⟩
        exact ⟨.inl rfl, hds⟩
      · refine ⟨some ⟨'E', sign, ds⟩, ?_, by simp [exponentSource]⟩
        rintro _ ⟨⟩
        exact ⟨.inr rfl, hds⟩
  · rintro ⟨_ | ⟨letter, sign, ds⟩, hexponent, rfl⟩
    · exact .inl rfl
    · obtain ⟨hletter, hds⟩ := hexponent _ rfl
      refine .inr ⟨[letter] ++ Sign.source sign, ⟨[letter], ?_, _,
        mem_optional_signs_iff.2 ⟨sign, rfl⟩, rfl⟩, ds, hds, by simp [exponentSource]⟩
      exact hletter.imp (congrArg fun c => [c]) (congrArg fun c => [c])

theorem mem_numerals_iff :
    r ∈ numerals ↔ ∃ numeral : Numeral, numeral.WellFormed ∧ numeral.source = r := by
  constructor
  · rintro ⟨_, ⟨s, hs, m, hm, rfl⟩, e, he, rfl⟩
    obtain ⟨sign, rfl⟩ := mem_optional_signs_iff.1 hs
    obtain ⟨whole, fraction, hwhole, hfraction, hsome, rfl⟩ := mem_mantissas_iff.1 hm
    obtain ⟨exponent, hexponent, rfl⟩ := mem_optional_exponents_iff.1 he
    exact ⟨⟨sign, whole, fraction, exponent⟩, ⟨hwhole, hfraction, hsome, hexponent⟩,
      by simp [source]⟩
  · rintro ⟨⟨sign, whole, fraction, exponent⟩, ⟨hwhole, hfraction, hsome, hexponent⟩, rfl⟩
    refine ⟨_, ⟨_, mem_optional_signs_iff.2 ⟨sign, rfl⟩, _,
      mem_mantissas_iff.2 ⟨whole, fraction, hwhole, hfraction, hsome, rfl⟩, rfl⟩, _,
      mem_optional_exponents_iff.2 ⟨exponent, hexponent, rfl⟩, by simp [source]⟩

/-! ## Reading is well formed -/

theorem mem_digits_of_takeWhile {d : Char} {ds : List Char}
    (h : text.takeWhile Char.isDigit = d :: ds) : d :: ds ∈ digits := by
  refine ⟨by simp, ?_⟩
  rw [← h]
  exact List.all_eq_true.1 List.all_takeWhile

theorem mem_digits_of_readFraction : ∀ ds ∈ (readFraction text).1, ds ∈ digits := by
  unfold readFraction
  split
  · split
    · simp
    · next hdigits => simpa using mem_digits_of_takeWhile hdigits
  · simp

theorem mem_digits_of_readExponent :
    ∀ e ∈ (readExponent text).1, (e.letter = 'e' ∨ e.letter = 'E') ∧ e.digits ∈ digits := by
  unfold readExponent
  split
  · simp
  · split
    · next hletter =>
        dsimp only
        split
        · simp
        · next hdigits => simpa using ⟨by simpa using hletter, mem_digits_of_takeWhile hdigits⟩
    · simp

theorem wellFormed_read (h : starts text = true) : (read text).1.WellFormed where
  whole := List.all_eq_true.1 List.all_takeWhile
  fraction := mem_digits_of_readFraction
  mantissa := starts_iff.1 h
  exponent := mem_digits_of_readExponent

/-! ## Reading goes as far as it can -/

theorem readFraction_point {ds : List Char} (h : ds ∈ digits) :
    (readFraction ('.' :: (ds ++ rest))).2 = rest.dropWhile Char.isDigit := by
  obtain ⟨hne, hdigits⟩ := h
  have htake : (ds ++ rest).takeWhile Char.isDigit = ds ++ rest.takeWhile Char.isDigit :=
    List.takeWhile_append_of_pos hdigits
  obtain ⟨d, ds, rfl⟩ := List.exists_cons_of_ne_nil hne
  rw [readFraction, htake]
  exact List.dropWhile_append_of_pos hdigits

theorem readExponent_letter {letter : Char} {sign : Option Sign} {ds : List Char}
    (hletter : letter = 'e' ∨ letter = 'E') (h : ds ∈ digits) :
    (readExponent (letter :: (Sign.source sign ++ (ds ++ rest)))).2 =
      rest.dropWhile Char.isDigit := by
  obtain ⟨hne, hdigits⟩ := h
  have htake : (ds ++ rest).takeWhile Char.isDigit = ds ++ rest.takeWhile Char.isDigit :=
    List.takeWhile_append_of_pos hdigits
  rw [readExponent, if_pos (by simpa using hletter), sign_read_source hne hdigits]
  obtain ⟨d, ds, rfl⟩ := List.exists_cons_of_ne_nil hne
  dsimp only
  rw [htake]
  exact List.dropWhile_append_of_pos hdigits

theorem dropWhile_fractionSource {fraction : Option (List Char)} (h : fraction.isSome = true) :
    (fractionSource fraction ++ rest).dropWhile Char.isDigit = fractionSource fraction ++ rest := by
  obtain ⟨ds, rfl⟩ := Option.isSome_iff_exists.1 h
  rfl

theorem readFraction_source_suffix {fraction : Option (List Char)}
    (h : ∀ ds ∈ fraction, ds ∈ digits) :
    (readFraction ((fractionSource fraction ++ rest).dropWhile Char.isDigit)).2 <:+ rest := by
  cases fraction with
  | none => exact (readFraction_suffix _).trans (List.dropWhile_suffix _)
  | some ds =>
      rw [dropWhile_fractionSource rfl]
      change (readFraction ('.' :: (ds ++ rest))).2 <:+ rest
      rw [readFraction_point (h ds rfl)]
      exact List.dropWhile_suffix _

theorem readFraction_source_letter {fraction : Option (List Char)} {letter : Char}
    (h : ∀ ds ∈ fraction, ds ∈ digits) (hletter : letter = 'e' ∨ letter = 'E') :
    (readFraction ((fractionSource fraction ++ letter :: rest).dropWhile Char.isDigit)).2 =
      letter :: rest := by
  have hdrop : (letter :: rest).dropWhile Char.isDigit = letter :: rest := by
    rcases hletter with rfl | rfl <;> rfl
  cases fraction with
  | none =>
      rw [fractionSource, List.nil_append, hdrop, readFraction_cons]
      rcases hletter with rfl | rfl <;> decide
  | some ds =>
      rw [dropWhile_fractionSource rfl]
      exact (readFraction_point (h ds rfl)).trans hdrop

theorem WellFormed.ofChar?_head (h : numeral.WellFormed) (behind : List Char) :
    ∀ c ∈ (numeral.whole ++ (fractionSource numeral.fraction ++ behind)).head?,
      Sign.ofChar? c = none := by
  cases hwhole : numeral.whole with
  | cons d whole => simpa using ofChar?_of_isDigit (h.whole d (hwhole ▸ List.mem_cons_self))
  | nil =>
      obtain ⟨ds, hds⟩ := Option.isSome_iff_exists.1 (h.mantissa.resolve_left (by simp [hwhole]))
      simp [hds, fractionSource, Sign.ofChar?]

theorem WellFormed.read_suffix (h : numeral.WellFormed) (post : List Char) :
    (read (numeral.source ++ post)).2 <:+ post := by
  have hhead := h.ofChar?_head (exponentSource numeral.exponent ++ post)
  obtain ⟨sign, whole, fraction, exponent⟩ := numeral
  obtain ⟨hwhole, hfraction, -, hexponent⟩ := h
  dsimp only at hwhole hfraction hexponent hhead
  have hsign :
      Sign.read (Sign.source sign ++
          (whole ++ (fractionSource fraction ++ (exponentSource exponent ++ post)))) =
        (sign, whole ++ (fractionSource fraction ++ (exponentSource exponent ++ post))) :=
    sign_read_source_append hhead
  simp only [read, source, List.append_assoc, hsign, List.dropWhile_append_of_pos hwhole]
  cases exponent with
  | none => exact (readExponent_suffix _).trans (readFraction_source_suffix hfraction)
  | some e =>
      obtain ⟨hletter, hdigits⟩ := hexponent e rfl
      simp only [exponentSource, List.cons_append, List.append_assoc,
        readFraction_source_letter hfraction hletter, readExponent_letter hletter hdigits]
      exact List.dropWhile_suffix _

theorem isLongestIn_read (h : starts text = true) :
    IsLongestIn numerals text (read text).1.source where
  mem := mem_numerals_iff.2 ⟨_, wellFormed_read h, rfl⟩
  begins := ⟨_, source_append_read text⟩
  longest := by
    rintro p hp ⟨post, rfl⟩
    obtain ⟨numeral, hnumeral, rfl⟩ := mem_numerals_iff.1 hp
    have hle := (hnumeral.read_suffix post).length_le
    have hlength := congrArg List.length (source_append_read (numeral.source ++ post))
    rw [List.length_append, List.length_append] at hlength
    omega

/-! ## What a numeral says -/

def integerOf : List Char → Int
  | '+' :: ds => Nat.ofDigitChars 10 ds 0
  | '-' :: ds => -Nat.ofDigitChars 10 ds 0
  | ds => Nat.ofDigitChars 10 ds 0

end Numeral

/-- The number is told apart as its numeral is written, and has the integer that the numeral
writes if there is one of 64 bits. -/
structure Numeric.ReadOff (numeric : Numeric) (r : List Char) : Prop where
  signed : numeric.signed = true ↔ r.head? = some '+' ∨ r.head? = some '-'
  kind : numeric.kind = .number ↔ '.' ∈ r ∨ 'e' ∈ r ∨ 'E' ∈ r
  intValue : ∀ i, numeric.intValue = some i ↔
    numeric.kind = .integer ∧ -2 ^ 63 ≤ i ∧ i ≤ 2 ^ 63 - 1 ∧ i = Numeral.integerOf r

namespace Numeral

variable {numeral : Numeral}

theorem char_ne_of_isDigit {c : Char} (h : c.isDigit = true) :
    c ≠ '+' ∧ c ≠ '-' ∧ c ≠ '.' ∧ c ≠ 'e' ∧ c ≠ 'E' := by
  refine ⟨?_, ?_, ?_, ?_, ?_⟩
  all_goals
    rintro rfl
    cases h

theorem WellFormed.signed_iff (h : numeral.WellFormed) :
    numeral.numeric.signed = true ↔
      numeral.source.head? = some '+' ∨ numeral.source.head? = some '-' := by
  obtain ⟨sign, whole, fraction, exponent⟩ := numeral
  rcases sign with _ | _ | _
  · cases whole with
    | cons d whole =>
        obtain ⟨hplus, hminus, -⟩ := char_ne_of_isDigit (h.whole d List.mem_cons_self)
        simp [numeric, source, Sign.source, hplus, hminus]
    | nil =>
        obtain ⟨ds, rfl⟩ := Option.isSome_iff_exists.1 (h.mantissa.resolve_left (by simp))
        simp [numeric, source, Sign.source, fractionSource]
  · simp [numeric, source, Sign.source, Sign.char]
  · simp [numeric, source, Sign.source, Sign.char]

theorem not_mem_source_of_digits {sign : Option Sign} {ds : List Char} {c : Char}
    (h : ∀ d ∈ ds, d.isDigit = true) (hc : c = '.' ∨ c = 'e' ∨ c = 'E') :
    c ∉ Sign.source sign ++ ds := by
  intro hmem
  rcases List.mem_append.1 hmem with hsign | hdigit
  · rcases sign with _ | _ | _ <;> rcases hc with rfl | rfl | rfl <;>
      simp_all [Sign.source, Sign.char]
  · obtain ⟨-, -, hpoint, hlower, hupper⟩ := char_ne_of_isDigit (h c hdigit)
    rcases hc with hc | hc | hc <;> contradiction

theorem WellFormed.kind_iff (h : numeral.WellFormed) :
    numeral.numeric.kind = .number ↔
      '.' ∈ numeral.source ∨ 'e' ∈ numeral.source ∨ 'E' ∈ numeral.source := by
  obtain ⟨sign, whole, fraction, exponent⟩ := numeral
  cases fraction with
  | some ds => simp [numeric, kind, source, fractionSource]
  | none =>
      cases exponent with
      | some e =>
          rcases (h.exponent e rfl).1 with hletter | hletter
          · simp [numeric, kind, source, exponentSource, hletter]
          · simp [numeric, kind, source, exponentSource, hletter]
      | none =>
          refine iff_of_false (by simp [numeric, kind]) ?_
          simp only [source, fractionSource, exponentSource, List.append_nil, not_or]
          exact ⟨not_mem_source_of_digits h.whole (.inl rfl),
            not_mem_source_of_digits h.whole (.inr (.inl rfl)),
            not_mem_source_of_digits h.whole (.inr (.inr rfl))⟩

theorem integerOf_source {sign : Option Sign} {ds : List Char}
    (h : ∀ d ∈ ds, d.isDigit = true) :
    integerOf (Sign.source sign ++ ds) = (ofDigits sign ds).wholeValue := by
  rcases sign with _ | _ | _
  · change integerOf ds = _
    rw [integerOf]
    · rfl
    · rintro ds rfl
      exact absurd rfl (char_ne_of_isDigit (h '+' List.mem_cons_self)).1
    · rintro ds rfl
      exact absurd rfl (char_ne_of_isDigit (h '-' List.mem_cons_self)).2.1
  · rfl
  · rfl

theorem WellFormed.intValue_iff (h : numeral.WellFormed) (i : Int) :
    numeral.numeric.intValue = some i ↔
      numeral.numeric.kind = .integer ∧ -2 ^ 63 ≤ i ∧ i ≤ 2 ^ 63 - 1 ∧
        i = integerOf numeral.source := by
  obtain ⟨sign, whole, fraction, exponent⟩ := numeral
  cases fraction with
  | some ds => simp [numeric, kind, intValue]
  | none =>
      cases exponent with
      | some e => simp [numeric, kind, intValue]
      | none =>
          have hsource : integerOf (source ⟨sign, whole, none, none⟩) =
              (ofDigits sign whole).wholeValue := by
            simp only [source, fractionSource, exponentSource, List.append_nil]
            exact integerOf_source h.whole
          rw [hsource]
          change (if fitsWord (ofDigits sign whole).wholeValue then some _ else none) = some i ↔ _
          rw [Option.ite_none_right_eq_some, fitsWord_iff, Option.some_inj]
          constructor
          · rintro ⟨⟨hlower, hupper⟩, rfl⟩
            exact ⟨rfl, hlower, Int.le_sub_one_of_lt hupper, rfl⟩
          · rintro ⟨-, hlower, hupper, rfl⟩
            exact ⟨⟨hlower, Int.lt_of_le_sub_one hupper⟩, rfl⟩

theorem WellFormed.readOff (h : numeral.WellFormed) : numeral.numeric.ReadOff numeral.source where
  signed := h.signed_iff
  kind := h.kind_iff
  intValue := h.intValue_iff

end Numeral

/-! ## Numeric tokens -/

/-- What stands behind the numeral in a token, with `rest` behind the token. -/
def Token.IsBehindNumeral (rest x : List Char) : Token → Prop
  | .atom (.number _) _ => x = []
  | .atom (.percentage _) _ => x = ['%']
  | .atom (.dimension _ unit) _ => x ≠ [] ∧ Decodes CodePoint.isIdent (x ++ rest) unit.toList rest
  | _ => False

theorem Numeral.of_read {numeral : Numeral} {text middle : List Char}
    (hstarts : starts text = true) (hread : read text = (numeral, middle)) :
    text = numeral.source ++ middle ∧ IsLongestIn numerals text numeral.source ∧
      numeral.numeric.ReadOff numeral.source := by
  have hsource := source_append_read text
  have hlongest := isLongestIn_read hstarts
  have hreadOff := (wellFormed_read hstarts).readOff
  rw [hread] at hsource hlongest hreadOff
  exact ⟨hsource.symm, hlongest, hreadOff⟩

theorem Lexeme.exists_unit {text unit rest : List Char} (hstarts : startsIdent text = true)
    (hread : ident text = (unit, rest)) :
    ∃ x, x ≠ [] ∧ text = x ++ rest ∧ Decodes isIdent (x ++ rest) unit rest := by
  have hdecodes := decodes_ident text
  rw [hread] at hdecodes
  cases text with
  | nil => cases hstarts
  | cons c text =>
      have hsuffix := ident_suffix_of_startsIdent hstarts
      rw [hread] at hsuffix
      obtain ⟨x, rfl⟩ := hsuffix
      exact ⟨c :: x, by simp, rfl, hdecodes⟩

/-- A lexeme with a number begins with the longest numeral, which says what the number is. -/
theorem Lexeme.Origin.exists_numeral {c : Char} {text rest : List Char} {t : Token}
    {numeric : Numeric} (h : Origin c text t.lexeme rest) (hnumeric : t.numeric? = some numeric) :
    ∃ r x, c :: text = r ++ (x ++ rest) ∧ IsLongestIn Numeral.numerals (c :: text) r ∧
      numeric.ReadOff r ∧ t.IsBehindNumeral rest x := by
  cases t with
  | function name arguments span => cases hnumeric
  | atom a span =>
      cases a
      case number =>
        cases hnumeric
        cases h with
        | number starts read =>
            obtain ⟨hsource, hlongest, hreadOff⟩ := Numeral.of_read starts read
            exact ⟨_, [], hsource, hlongest, hreadOff, rfl⟩
        | mark mark => cases mark
      case percentage =>
        cases hnumeric
        cases h with
        | percentage starts read =>
            obtain ⟨hsource, hlongest, hreadOff⟩ := Numeral.of_read starts read
            exact ⟨_, ['%'], hsource, hlongest, hreadOff, rfl⟩
        | mark mark => cases mark
      case dimension =>
        cases hnumeric
        cases h with
        | dimension starts read united unit_read =>
            obtain ⟨hsource, hlongest, hreadOff⟩ := Numeral.of_read starts read
            obtain ⟨x, hne, rfl, hunit⟩ := exists_unit united unit_read
            refine ⟨_, x, hsource, hlongest, hreadOff, hne, ?_⟩
            rwa [String.toList_ofList]
        | mark mark => cases mark
      all_goals cases hnumeric

/-- A number at any depth is written as the longest numeral at the start of its token, which a
number has nothing behind, a percentage a per cent sign and a dimension a name that decodes to its
unit. The numeral says what the number is. -/
theorem tokenize_numerals (text : String) {level : List Token} {t : Token} {numeric : Numeric}
    (hlevel : Token.Level (tokenize text) level) (ht : t ∈ level)
    (hnumeric : t.numeric? = some numeric) :
    ∃ r x, text.toList.extract t.span.start t.span.stop = r ++ x ∧
      IsLongestIn Numeral.numerals (text.toList.drop t.span.start) r ∧ numeric.ReadOff r ∧
        t.IsBehindNumeral (text.toList.drop t.span.stop) x := by
  obtain ⟨c, tail, middle, hsource, hscan, hlt, -, hatom⟩ | rfl := hlevel.exists_scan ht
  case inr => cases hnumeric
  have hstop : t.span.stop = middle := by
    cases t with
    | function => cases hnumeric
    | atom a span => exact hatom a span rfl
  obtain ⟨r, x, htext, hlongest, hreadOff, hbehind⟩ :=
    (Lexeme.origin_of_scan hscan).exists_numeral hnumeric
  rw [← hsource, ← List.append_assoc] at htext
  rw [← hsource] at hlongest
  rw [hstop]
  exact ⟨r, x, extract_eq_of_drop (Nat.le_of_lt hlt) htext, hlongest, hreadOff, hbehind⟩

/-- A power of ten and behind it a unit that begins like one. -/
theorem tokenize_numerals_power :
    ∃ numeric, tokenize "f(-12e+3e4)" =
        [.function "f" [.atom (.dimension numeric "e4") ⟨2, 10⟩] ⟨0, 11⟩, .atom .eof ⟨11, 11⟩] ∧
      ∃ r x, "-12e+3e4".toList = r ++ x ∧ IsLongestIn Numeral.numerals "-12e+3e4)".toList r ∧
        numeric.ReadOff r ∧ x ≠ [] ∧ Decodes isIdent (x ++ [')']) "e4".toList [')'] := by
  let numeral : Numeral := ⟨some .minus, ['1', '2'], none, some ⟨'e', some .plus, ['3']⟩⟩
  let token : Token := .atom (.dimension numeral.numeric "e4") ⟨2, 10⟩
  have htokens : tokenize "f(-12e+3e4)" =
      [.function "f" [token] ⟨0, 11⟩, .atom .eof ⟨11, 11⟩] := by
    with_unfolding_all rfl
  have hlevel : Token.Level (tokenize "f(-12e+3e4)") [token] := by
    rw [htokens]
    exact .arguments .outermost List.mem_cons_self
  exact ⟨_, htokens, tokenize_numerals "f(-12e+3e4)" hlevel List.mem_cons_self rfl⟩

end CssSelectors
