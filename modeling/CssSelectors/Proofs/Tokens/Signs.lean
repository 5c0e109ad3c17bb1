import CssSelectors.Proofs.Tokens.Numerals
import CssSelectors.Token.Printer

/-!
# Signs of numbers

The text of a numeric token begins with the sign that its numeral has in front, if it has one, and
a digit comes next. Only a zero with a minus sign is written otherwise: it is not less than zero,
so a plus sign is put in front of it.
-/

namespace CssSelectors

def BeginsWithDigit (text : List Char) : Prop :=
  ∃ c ∈ text.head?, c.isDigit = true

/-- The text begins with a sign if and only if the source begins with the same one, and behind it
or at the start comes a digit. -/
structure KeepsSign (source text : List Char) : Prop where
  minus : text.head? = some '-' ↔ source.head? = some '-'
  plus : text.head? = some '+' ↔ source.head? = some '+'
  digit : ∃ sign digits, text = Sign.source sign ++ digits ∧ BeginsWithDigit digits

variable {text source digits behind : List Char} {sign : Option Sign} {numeral : Numeral}

/-! ## Texts that begin with a digit -/

theorem BeginsWithDigit.append (h : BeginsWithDigit digits) (behind : List Char) :
    BeginsWithDigit (digits ++ behind) := by
  obtain ⟨c, hc, hdigit⟩ := h
  exact ⟨c, List.mem_head?_append_of_mem_head? hc, hdigit⟩

theorem beginsWithDigit_repr (n : Nat) : BeginsWithDigit n.repr.toList := by
  rw [Nat.toList_repr]
  obtain ⟨c, cs, hcs⟩ := List.exists_cons_of_ne_nil (Nat.toDigits_ne_nil (n := n) (b := 10))
  refine ⟨c, by rw [hcs]; rfl, ?_⟩
  exact Nat.isDigit_of_mem_toDigits (by decide) (by decide) (hcs ▸ List.mem_cons_self)

/-- With its point in place a decimal begins with one of its digits, or with a zero. -/
theorem Decimal.beginsWithDigit_write (decimal : Decimal) :
    BeginsWithDigit (decimal.write .plain).toList := by
  have hdigits : BeginsWithDigit (Nat.toDigits 10 decimal.digits) := by
    rw [← Nat.toList_repr]
    exact beginsWithDigit_repr _
  change BeginsWithDigit (writeInPlace "" (Nat.toDigits 10 decimal.digits) _).toList
  generalize Nat.toDigits 10 decimal.digits = digits at hdigits ⊢
  unfold writeInPlace
  split
  · exact ⟨'0', by simp, rfl⟩
  · next hpoint =>
    split
    · simpa using hdigits.append _
    · obtain ⟨c, hc, hdigit⟩ := hdigits
      generalize (digits.length + decimal.exponent : Int) = point at hpoint ⊢
      have htake : (digits.take point.toNat).head? = digits.head? := by
        rw [List.head?_take, if_neg (by omega)]
      rw [← htake] at hc
      simpa using BeginsWithDigit.append ⟨c, hc, hdigit⟩ _

namespace Binary64

variable {x : Binary64}

theorem beginsWithDigit_magnitudeText (h : x.isFinite = true) :
    BeginsWithDigit (x.magnitudeText .plain).toList := by
  have hfinite : x.isInfinite = false := by
    simp only [isFinite, isInfinite, decide_eq_true_eq, decide_eq_false_iff_not] at h ⊢
    omega
  rw [magnitudeText, hfinite]
  split
  · exact ⟨'0', rfl, rfl⟩
  · exact Decimal.beginsWithDigit_write _

theorem isNaN_of_isFinite (h : x.isFinite = true) : x.isNaN = false := by
  simp only [isFinite, isNaN, decide_eq_true_eq, decide_eq_false_iff_not] at h ⊢
  omega

theorem div_le_roundToEven (n d : Nat) : n / d ≤ roundToEven n d := by
  unfold roundToEven
  dsimp only
  split <;> omega

theorem nearestMagnitude_pos {n : Nat} (h : 0 < n) : 0 < nearestMagnitude n 1 := by
  have hinfinity : 0 < infinity := by decide
  have hcount : 0 < fractionCount := by decide
  refine Nat.lt_min.2 ⟨?_, hinfinity⟩
  generalize (n / 1).log2 - 52 = shift
  cases shift with
  | zero =>
      have hle := div_le_roundToEven n (1 * Nat.pow 2 0)
      rw [Nat.div_one] at hle
      omega
  | succ shift => exact Nat.add_pos_left (Nat.mul_pos shift.succ_pos hcount) _

theorem decimalMagnitude_le (n : Nat) (exponent : Int) :
    decimalMagnitude n exponent ≤ infinity := by
  have hnearest (n d : Nat) : nearestMagnitude n d ≤ infinity := Nat.min_le_right _ _
  unfold decimalMagnitude
  split
  · split
    · exact Nat.zero_le _
    · split
      · exact Nat.le_refl _
      · exact hnearest _ _
  · split
    · exact Nat.zero_le _
    · exact hnearest _ _

theorem decimalMagnitude_zero_iff {n : Nat} : decimalMagnitude n 0 = 0 ↔ n = 0 := by
  unfold decimalMagnitude
  -- the power is not to be computed
  generalize 1074 = unit
  split
  case h_2 e heq => cases heq
  case h_1 e _ =>
    split
    · next h => exact iff_of_true rfl h
    · next h =>
      refine iff_of_false (Nat.ne_of_gt ?_) h
      have hpos : 0 < n * Nat.pow 10 e * Nat.pow 2 unit :=
        Nat.mul_pos (Nat.mul_pos (Nat.pos_of_ne_zero h) (Nat.pow_pos (by decide)))
          (Nat.pow_pos (by decide))
      split
      · decide
      · exact nearestMagnitude_pos hpos

theorem isZero_ofDecimal (negative : Bool) (n : Nat) :
    (ofDecimal negative n 0).isZero = true ↔ n = 0 := by
  have hlt : decimalMagnitude n 0 < 2 ^ 63 :=
    Nat.lt_of_le_of_lt (decimalMagnitude_le n 0) (by decide)
  simp only [isZero, ofDecimal, BitVec.toNat_ofNat, Nat.mod_eq_of_lt hlt, decide_eq_true_eq,
    decimalMagnitude_zero_iff]

theorem isNonnegative_of_isFinite (h : x.isFinite = true) :
    x.isNonnegative = (!x.negative || x.isZero) := by
  rw [isNonnegative, isNaN_of_isFinite h]
  rfl

theorem text_of_isFinite (h : x.isFinite = true) :
    x.text .plain = (if x.negative then "-" else "") ++ x.magnitudeText .plain := by
  rw [text, isNaN_of_isFinite h]
  rfl

theorem isFinite_of_isZero (h : x.isZero = true) : x.isFinite = true := by
  simp only [isZero, isFinite, decide_eq_true_eq] at h ⊢
  rw [h]
  decide

theorem magnitudeText_of_isZero (h : x.isZero = true) : x.magnitudeText .plain = "0" := by
  rw [magnitudeText, h]
  rfl

end Binary64

/-! ## What stands behind a plus sign -/

/-- The whole number if there is one, else the value. -/
def Numeric.bareText (numeric : Numeric) : String :=
  match numeric.intValue with
  | some i => toString i
  | none => numeric.value.text .plain

theorem Numeric.text_eq (numeric : Numeric) :
    numeric.text =
      (if numeric.signed && numeric.value.isNonnegative then "+" else "") ++ numeric.bareText :=
  rfl

namespace Numeral

/-- The number has no whole number, or the one that its digits write, and then its value is the
nearest one to that. -/
theorem numeric_cases (numeral : Numeral) :
    numeral.numeric.bareText = numeral.value.text .plain ∧ numeral.numeric.intValue = none ∨
      numeral.numeric.bareText = toString numeral.wholeValue ∧
        numeral.numeric.intValue = some numeral.wholeValue ∧
        numeral.value = .ofDecimal numeral.isNegative (CodePoint.decimalValue numeral.whole) 0 := by
  obtain ⟨sign, whole, fraction, exponent⟩ := numeral
  cases hint : intValue ⟨sign, whole, fraction, exponent⟩ with
  | none => exact .inl ⟨by simp [Numeric.bareText, numeric, hint], hint⟩
  | some i =>
      right
      cases fraction with
      | some ds => cases hint
      | none =>
        cases exponent with
        | some e => cases hint
        | none =>
          obtain ⟨-, hwhole⟩ := Option.ite_none_right_eq_some.1 hint
          refine ⟨by simp [Numeric.bareText, numeric, hint, Option.some.inj hwhole], ?_, ?_⟩
          · exact hint.trans hwhole.symm
          · simp [value, fractionDigits, exponentValue]

theorem beginsWithDigit_bareText (hsign : numeral.isNegative = false)
    (hfinite : numeral.value.isFinite = true) :
    BeginsWithDigit numeral.numeric.bareText.toList := by
  rcases numeral.numeric_cases with ⟨htext, -⟩ | ⟨htext, -, -⟩
  · have hnegative : numeral.value.negative = false := hsign
    rw [htext, Binary64.text_of_isFinite hfinite, hnegative]
    simpa using Binary64.beginsWithDigit_magnitudeText hfinite
  · rw [htext, wholeValue, hsign]
    exact beginsWithDigit_repr _

theorem bareText_of_isZero (hsign : numeral.isNegative = true)
    (hfinite : numeral.value.isFinite = true) (hzero : numeral.value.isZero = true) :
    numeral.numeric.bareText = if numeral.numeric.intValue = some 0 then "0" else "-0" := by
  rcases numeral.numeric_cases with ⟨htext, hint⟩ | ⟨htext, hint, hvalue⟩
  · have hnegative : numeral.value.negative = true := hsign
    rw [htext, Binary64.text_of_isFinite hfinite, Binary64.magnitudeText_of_isZero hzero, hnegative,
      hint]
    rfl
  · rw [hvalue, Binary64.isZero_ofDecimal] at hzero
    have hwhole : numeral.wholeValue = 0 := by rw [wholeValue, hsign, hzero]; rfl
    rw [htext, hint, hwhole]
    rfl

theorem bareText_of_not_isZero (hsign : numeral.isNegative = true)
    (hfinite : numeral.value.isFinite = true) (hzero : numeral.value.isZero = false) :
    ∃ digits, numeral.numeric.bareText.toList = '-' :: digits ∧ BeginsWithDigit digits := by
  rcases numeral.numeric_cases with ⟨htext, -⟩ | ⟨htext, -, hvalue⟩
  · have hnegative : numeral.value.negative = true := hsign
    refine ⟨_, ?_, Binary64.beginsWithDigit_magnitudeText hfinite⟩
    rw [htext, Binary64.text_of_isFinite hfinite, hnegative]
    simp
  · rw [hvalue, Bool.eq_false_iff, Ne, Binary64.isZero_ofDecimal] at hzero
    refine ⟨_, ?_, beginsWithDigit_repr (CodePoint.decimalValue numeral.whole)⟩
    rw [htext, wholeValue, hsign, Int.toString_eq_repr, Int.repr_eq_if, if_pos rfl,
      if_neg (by omega)]
    simp

/-- The text begins with the sign of the numeral unless it is a zero with a minus sign. -/
theorem exists_text_eq (hfinite : numeral.value.isFinite = true)
    (hkeep : ¬(numeral.isNegative = true ∧ numeral.value.isZero = true)) :
    ∃ digits, numeral.numeric.text.toList = Sign.source numeral.sign ++ digits ∧
      BeginsWithDigit digits := by
  have hplus : (numeral.numeric.signed && numeral.numeric.value.isNonnegative) =
      (numeral.sign.isSome && (!numeral.isNegative || numeral.value.isZero)) := by
    change (_ && numeral.value.isNonnegative) = _
    rw [Binary64.isNonnegative_of_isFinite hfinite]
    rfl
  rw [Numeric.text_eq, hplus, String.toList_append]
  cases hsign : numeral.sign with
  | none =>
      refine ⟨_, ?_, numeral.beginsWithDigit_bareText (by simp [isNegative, hsign]) hfinite⟩
      rfl
  | some sign =>
      cases sign with
      | plus =>
          have hpositive : numeral.isNegative = false := by simp [isNegative, hsign]
          refine ⟨_, ?_, numeral.beginsWithDigit_bareText hpositive hfinite⟩
          rw [hpositive]
          simp [Sign.source, Sign.char]
      | minus =>
          have hnegative : numeral.isNegative = true := by simp [isNegative, hsign]
          have hzero : numeral.value.isZero = false := by simpa [hnegative] using hkeep
          obtain ⟨digits, htext, hdigits⟩ := bareText_of_not_isZero hnegative hfinite hzero
          refine ⟨digits, ?_, hdigits⟩
          rw [htext, hnegative, hzero]
          rfl

theorem text_of_isZero (hsign : numeral.isNegative = true)
    (hfinite : numeral.value.isFinite = true) (hzero : numeral.value.isZero = true) :
    numeral.numeric.text = if numeral.numeric.intValue = some 0 then "+0" else "+-0" := by
  have hsigned : numeral.numeric.signed = true := by
    have hminus : numeral.sign = some .minus := by simpa [isNegative] using hsign
    rw [numeric, hminus]
    rfl
  have hplus : numeral.numeric.value.isNonnegative = true := by
    change numeral.value.isNonnegative = true
    rw [Binary64.isNonnegative_of_isFinite hfinite, hzero, Bool.or_true]
  rw [Numeric.text_eq, hsigned, hplus, bareText_of_isZero hsign hfinite hzero]
  cases numeral.numeric.intValue with
  | none => rfl
  | some i => by_cases hi : i = 0 <;> simp [hi]

end Numeral

/-! ## Where signs stand -/

theorem head?_source_append {rest : List Char} (h : ∀ c ∈ rest.head?, Sign.ofChar? c = none)
    (s : Sign) : (Sign.source sign ++ rest).head? = some s.char ↔ sign = some s := by
  rcases sign with _ | _ | _
  · refine iff_of_false (fun hhead => ?_) (by simp)
    have hnone := h s.char hhead
    cases s <;> cases hnone
  · cases s <;> simp [Sign.source, Sign.char]
  · cases s <;> simp [Sign.source, Sign.char]

theorem BeginsWithDigit.ofChar?_head (h : BeginsWithDigit digits) :
    ∀ c ∈ digits.head?, Sign.ofChar? c = none := by
  obtain ⟨d, hd, hdigit⟩ := h
  intro c hc
  obtain rfl := Option.mem_unique hd hc
  exact Numeral.ofChar?_of_isDigit hdigit

theorem Numeral.WellFormed.head?_of_prefix (h : numeral.WellFormed)
    (hsource : numeral.source <+: source) (s : Sign) :
    source.head? = some s.char ↔ numeral.sign = some s := by
  obtain ⟨behind, rfl⟩ := hsource
  simp only [Numeral.source, List.append_assoc]
  exact head?_source_append (h.ofChar?_head _) s

/-- A text keeps the sign of its source if it is made of that sign and digits. -/
theorem KeepsSign.of_source (hsource : ∀ s : Sign, source.head? = some s.char ↔ sign = some s)
    (hdigits : BeginsWithDigit digits) : KeepsSign source (Sign.source sign ++ digits) where
  minus := (head?_source_append hdigits.ofChar?_head .minus).trans (hsource .minus).symm
  plus := (head?_source_append hdigits.ofChar?_head .plus).trans (hsource .plus).symm
  digit := ⟨sign, digits, rfl, hdigits⟩

/-! ## Numeric tokens -/

theorem Token.exists_text_eq {t : Token} {numeric : Numeric} (h : t.numeric? = some numeric) :
    ∃ behind, t.text = numeric.text ++ behind := by
  cases t with
  | function name arguments span => cases h
  | atom a span =>
      cases a <;> cases h
      · exact ⟨"", String.append_empty.symm⟩
      · exact ⟨"%", rfl⟩
      · exact ⟨_, rfl⟩

/-- The number in a lexeme is that of a numeral at the start of the text. -/
theorem Lexeme.Origin.exists_wellFormed {c : Char} {text rest : List Char} {t : Token}
    {numeric : Numeric} (h : Origin c text t.lexeme rest) (hnumeric : t.numeric? = some numeric) :
    ∃ numeral : Numeral, numeral.numeric = numeric ∧ numeral.WellFormed ∧
      numeral.source <+: c :: text := by
  have hnumeral {numeral : Numeral} {middle : List Char}
      (hstarts : Numeral.starts (c :: text) = true)
      (hread : Numeral.read (c :: text) = (numeral, middle)) :
      numeral.WellFormed ∧ numeral.source <+: c :: text := by
    obtain rfl : (Numeral.read (c :: text)).1 = numeral := congrArg Prod.fst hread
    exact ⟨Numeral.wellFormed_read hstarts, _, Numeral.source_append_read _⟩
  cases t with
  | function name arguments span => cases hnumeric
  | atom a span =>
      cases a
      case number =>
        cases hnumeric
        cases h with
        | number starts read => exact ⟨_, rfl, hnumeral starts read⟩
        | mark mark => cases mark
      case percentage =>
        cases hnumeric
        cases h with
        | percentage starts read => exact ⟨_, rfl, hnumeral starts read⟩
        | mark mark => cases mark
      case dimension =>
        cases hnumeric
        cases h with
        | dimension starts read => exact ⟨_, rfl, hnumeral starts read⟩
        | mark mark => cases mark
      all_goals cases hnumeric

/-- A finite number at any depth keeps the sign it is written with unless it is a zero behind a
minus sign. That one has a plus sign in front, and the minus sign behind it only if there is no
whole number. -/
theorem tokenize_signs (text : String) {level : List Token} {t : Token} {numeric : Numeric}
    (hlevel : Token.Level (tokenize text) level) (ht : t ∈ level)
    (hnumeric : t.numeric? = some numeric) (hfinite : numeric.value.isFinite = true) :
    let source := text.toList.extract t.span.start t.span.stop
    let isMinusZero := source.head? = some '-' ∧ numeric.value.isZero = true
    (KeepsSign source t.text.toList ↔ ¬isMinusZero) ∧
      (isMinusZero →
        ∃ behind, t.text = (if numeric.intValue = some 0 then "+0" else "+-0") ++ behind) := by
  obtain ⟨c, tail, middle, hdrop, hscan, hlt, -, hatom⟩ | rfl := hlevel.exists_scan ht
  case inr => cases hnumeric
  intro source isMinusZero
  have hhead : source.head? = (c :: tail).head? := by
    have hstop : t.span.stop = middle := by
      cases t with
      | function => cases hnumeric
      | atom a span => exact hatom a span rfl
    have hpos : t.span.stop - t.span.start ≠ 0 := by omega
    simp only [source, List.extract_eq_take_drop, List.head?_take, if_neg hpos, hdrop]
  obtain ⟨numeral, rfl, hwellFormed, hprefix⟩ :=
    (Lexeme.origin_of_scan hscan).exists_wellFormed hnumeric
  have hsource (s : Sign) : source.head? = some s.char ↔ numeral.sign = some s := by
    rw [hhead]
    exact hwellFormed.head?_of_prefix hprefix s
  have hminus : source.head? = some '-' ↔ numeral.isNegative = true := by
    rw [Numeral.isNegative, decide_eq_true_iff]
    exact hsource .minus
  obtain ⟨behind, htext⟩ := Token.exists_text_eq hnumeric
  have hzero (h : isMinusZero) :
      t.text = (if numeral.numeric.intValue = some 0 then "+0" else "+-0") ++ behind := by
    rw [htext, Numeral.text_of_isZero (hminus.1 h.1) hfinite h.2]
  refine ⟨⟨fun hkeeps h => ?_, fun h => ?_⟩, fun h => ⟨behind, hzero h⟩⟩
  · have hminus := hkeeps.minus.2 h.1
    rw [hzero h] at hminus
    split at hminus <;> simp at hminus
  · have hkeep : ¬(numeral.isNegative = true ∧ numeral.value.isZero = true) := fun hzero =>
      h ⟨hminus.2 hzero.1, hzero.2⟩
    obtain ⟨digits, hdigits, hbegins⟩ := Numeral.exists_text_eq hfinite hkeep
    rw [htext, String.toList_append, hdigits, List.append_assoc]
    exact KeepsSign.of_source hsource (hbegins.append _)

/-- The text of a zero behind a minus sign begins with a plus sign. -/
theorem tokenize_signs_zero :
    ∃ t numeric, tokenize "-0" = [t, .atom .eof ⟨2, 2⟩] ∧ t.numeric? = some numeric ∧
      numeric.value.isFinite = true ∧ t.text = "+0" ∧ ¬KeepsSign "-0".toList t.text.toList := by
  let numeral : Numeral := ⟨some .minus, ['0'], none, none⟩
  let t : Token := .atom (.number numeral.numeric) ⟨0, 2⟩
  have htokens : tokenize "-0" = [t, .atom .eof ⟨2, 2⟩] := by with_unfolding_all rfl
  have hlevel : Token.Level (tokenize "-0") [t, .atom .eof ⟨2, 2⟩] := by
    rw [htokens]
    exact .outermost
  have hzero : numeral.numeric.value.isZero = true := (Binary64.isZero_ofDecimal true 0).2 rfl
  have hfinite := Binary64.isFinite_of_isZero hzero
  have htext : t.text = "+0" := by
    change numeral.numeric.text = "+0"
    rw [Numeral.text_of_isZero rfl hfinite hzero]
    rfl
  obtain ⟨hkeeps, -⟩ := tokenize_signs "-0" hlevel List.mem_cons_self rfl hfinite
  exact ⟨t, _, htokens, rfl, hfinite, htext, fun h => hkeeps.1 h ⟨rfl, hzero⟩⟩

end CssSelectors
