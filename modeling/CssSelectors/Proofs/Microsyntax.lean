import CssSelectors.Proofs.Derivation
import CssSelectors.Proofs.Nested
import CssSelectors.Proofs.Tokens.Pieces
import Mathlib.Algebra.Order.Group.Unbundled.Int

/-!
# An+B as written

A step and an offset have many spellings: the step with a sign and leading zeros or without
any digits, the offset written into the name, behind its sign or apart from it, and blank text
around all of it. Each of them reaches the grammar as other tokens. Whatever the spelling,
the value that is read is the one that is written.
-/

namespace CssSelectors

open CodePoint

def Sign.applyTo : Option Sign → Nat → Int
  | some .minus, n => -n
  | _, n => n

namespace AnPlusB

/-! ## Spellings -/

/-- An offset as written: its sign with blank text on either side, and its digits. -/
structure WrittenOffset where
  before : List Char
  sign : Sign
  behind : List Char
  digits : List Char
  before_blank : BlankText before
  behind_blank : BlankText behind
  digits_ne_nil : digits ≠ []
  isDigit_of_mem : ∀ c ∈ digits, c.isDigit = true

/-- An+B as written, with the blank text around it. -/
structure Written where
  before : List Char
  sign : Option Sign
  digits : List Char
  letter : Char
  offset : Option WrittenOffset
  behind : List Char
  before_blank : BlankText before
  isDigit_of_mem : ∀ c ∈ digits, c.isDigit = true
  letter_eq : letter = 'n' ∨ letter = 'N'
  behind_blank : BlankText behind

/-- The step that a sign and digits write. Without digits it is one. -/
def stepOf (sign : Option Sign) (digits : List Char) : Int :=
  Sign.applyTo sign (if digits = [] then 1 else Nat.ofDigitChars 10 digits 0)

namespace WrittenOffset

def source (offset : WrittenOffset) : List Char :=
  offset.before ++ offset.sign.char :: (offset.behind ++ offset.digits)

def value (offset : WrittenOffset) : Int :=
  Sign.applyTo offset.sign (Nat.ofDigitChars 10 offset.digits 0)

end WrittenOffset

namespace Written

def source (w : Written) : List Char :=
  w.before ++ (Sign.source w.sign ++ (w.digits ++ w.letter ::
    ((w.offset.map WrittenOffset.source).getD [] ++ w.behind)))

def step (w : Written) : Int :=
  stepOf w.sign w.digits

def offsetValue (w : Written) : Int :=
  (w.offset.map WrittenOffset.value).getD 0

end Written

/-! ## The value of parts -/

section Shapes

variable {parts : List Part} {part : Part} {a b : Int} {n : Nat} {suffix : String}

theorem negate_natCast (h : (n : Int) < 2 ^ 63) : negate n = -n :=
  negate_eq_neg (Numeral.fitsWord_iff.2 ⟨by omega, by omega⟩)

def valueOf (parts : List Part) : Option (Int × Int) :=
  shapes.findSome? (· parts)

theorem valueOf_eq (parts : List Part) :
    valueOf parts = (odd? parts).or ((even? parts).or ((offsetAlone? parts).or
      ((stepAlone? parts).or ((fused? parts).or ((signedOffset? parts).or
        ((dashedOffset? parts).or (separateOffset? parts))))))) := by
  have hcons : ∀ (shape : List Part → Option (Int × Int)) others,
      (shape :: others).findSome? (· parts) = (shape parts).or (others.findSome? (· parts)) := by
    intro shape others
    cases h : shape parts <;> simp [h]
  simp only [valueOf, shapes, hcons, List.findSome?_nil, Option.or_none]

/-- Whether the part holds a name, as the last part of a step does. -/
def Part.isName : Part → Bool
  | .ident _ | .dimension _ _ => true
  | _ => false

theorem coefficient?_concat (hpart : part.isName = false) :
    coefficient? suffix (parts ++ [part]) = none := by
  have hlast : (parts ++ [part]).getLast? = some part := List.getLast?_concat
  generalize parts ++ [part] = all at hlast
  unfold coefficient?
  split
  case h_4 => rfl
  all_goals
    cases hlast
    cases hpart

theorem fused?_concat (hpart : part.isName = false) : fused? (parts ++ [part]) = none := by
  have hlast : (parts ++ [part]).getLast? = some part := List.getLast?_concat
  generalize parts ++ [part] = all at hlast
  unfold fused?
  split
  case h_4 => rfl
  all_goals
    cases hlast
    cases hpart

theorem words?_of_length (h : 1 < parts.length) :
    odd? parts = none ∧ even? parts = none ∧ offsetAlone? parts = none := by
  match parts, h with
  | part :: _ :: _, _ => cases part <;> exact ⟨rfl, rfl, rfl⟩

/-- No shape but those with an offset of its own ends in an integer behind other parts. -/
theorem valueOf_append_integer {value : Int} {signed : Bool} (hne : parts ≠ []) :
    valueOf (parts ++ [Part.integer value signed]) =
      (signedOffset? (parts ++ [Part.integer value signed])).or
        ((dashedOffset? (parts ++ [Part.integer value signed])).or
          (separateOffset? (parts ++ [Part.integer value signed]))) := by
  have hlength : 1 < (parts ++ [Part.integer value signed]).length := by
    have := List.length_pos_iff.2 hne
    rw [List.length_append, List.length_singleton]
    omega
  obtain ⟨hodd, heven, hoffset⟩ := words?_of_length hlength
  rw [valueOf_eq, hodd, heven, hoffset, stepAlone?, coefficient?_concat rfl, fused?_concat rfl]
  rfl

theorem ne_nil_of_coefficient? (h : coefficient? suffix parts = some a) : parts ≠ [] := by
  rintro rfl
  cases h

theorem valueOf_signed (h : coefficient? "" parts = some a) :
    valueOf (parts ++ [Part.integer b true]) = some (a, b) := by
  have hsigned : signedOffset? (parts ++ [Part.integer b true]) = some (a, b) := by
    simp [signedOffset?, h]
  rw [valueOf_append_integer (ne_nil_of_coefficient? h), hsigned, Option.some_or]

theorem valueOf_dashed (h : coefficient? "-" parts = some a) (hfits : (n : Int) < 2 ^ 63) :
    valueOf (parts ++ [Part.integer n false]) = some (a, -(n : Int)) := by
  have hsigned : signedOffset? (parts ++ [Part.integer n false]) = none := by
    simp [signedOffset?]
  have hdashed : dashedOffset? (parts ++ [Part.integer n false]) = some (a, -(n : Int)) := by
    simp [dashedOffset?, h, negate_natCast hfits]
  rw [valueOf_append_integer (ne_nil_of_coefficient? h), hsigned, hdashed, Option.none_or,
    Option.some_or]

/-- The part that a sign apart from its number plays. -/
def signPart : Sign → Part
  | .plus => .plus
  | .minus => .minus

theorem valueOf_separate (h : coefficient? "" parts = some a) (sign : Sign)
    (hfits : (n : Int) < 2 ^ 63) :
    valueOf (parts ++ [signPart sign, Part.integer n false]) = some (a, Sign.applyTo sign n) := by
  have hsign : (signPart sign).isName = false := by
    cases sign <;> rfl
  rw [List.append_cons]
  have hsigned : signedOffset? (parts ++ [signPart sign] ++ [Part.integer n false]) = none := by
    simp [signedOffset?]
  have hdashed : dashedOffset? (parts ++ [signPart sign] ++ [Part.integer n false]) = none := by
    simp only [dashedOffset?, List.getLast?_concat, List.dropLast_concat,
      coefficient?_concat hsign, Option.map_none]
  have hseparate : separateOffset? (parts ++ [signPart sign] ++ [Part.integer n false]) =
      some (a, Sign.applyTo sign n) := by
    cases sign
    all_goals
      simp only [separateOffset?, signPart, List.getLast?_concat, List.dropLast_concat, h,
        Option.map_some, negate_natCast hfits]
      rfl
  rw [valueOf_append_integer (by simp), hsigned, hdashed, hseparate, Option.none_or, Option.none_or]

end Shapes

/-! ## The step -/

section Step

variable {sign : Option Sign} {digits name : List Char} {letter : Char}

/-- The parts of a step that is written with the given name behind its sign and digits. -/
def stem (sign : Option Sign) (digits name : List Char) : List Part :=
  if digits = [] then
    match sign with
    | none => [.ident (String.ofList name)]
    | some .plus => [.plus, .ident (String.ofList name)]
    | some .minus => [.ident (String.ofList ('-' :: name))]
  else [.dimension (Sign.applyTo sign (Nat.ofDigitChars 10 digits 0)) (String.ofList name)]

theorem equalsIgnoringCase_ofList (chars : List Char) (t : String) :
    equalsIgnoringCase (String.ofList chars) t = true ↔
      chars.map Char.toLower = t.toList.map Char.toLower := by
  rw [equalsIgnoringCase, decide_eq_true_eq, String.toList_ofList]

theorem toLower_letter (hletter : letter = 'n' ∨ letter = 'N') : letter.toLower = 'n' := by
  rcases hletter with rfl | rfl <;> rfl

theorem coefficient?_stem (sign : Option Sign) (digits : List Char)
    (hletter : letter = 'n' ∨ letter = 'N') (suffix : String) :
    coefficient? suffix (stem sign digits (letter :: suffix.toList)) =
      some (stepOf sign digits) := by
  have hlower := toLower_letter hletter
  have hname : equalsIgnoringCase (String.ofList (letter :: suffix.toList))
      ("n" ++ suffix) = true := by
    rw [equalsIgnoringCase_ofList, String.toList_append, List.map_cons, hlower]
    rfl
  have hhyphen : equalsIgnoringCase (String.ofList ('-' :: letter :: suffix.toList))
      ("-n" ++ suffix) = true := by
    rw [equalsIgnoringCase_ofList, String.toList_append, List.map_cons, List.map_cons, hlower]
    rfl
  have hplain : ¬ equalsIgnoringCase (String.ofList ('-' :: letter :: suffix.toList))
      ("n" ++ suffix) = true := by
    rw [equalsIgnoringCase_ofList, String.toList_append]
    intro h
    cases (List.cons.inj h).1
  unfold stem stepOf
  by_cases hdigits : digits = []
  · rw [if_pos hdigits, if_pos hdigits]
    match sign with
    | none => rw [coefficient?, if_pos hname]; rfl
    | some .plus => rw [coefficient?, if_pos hname]; rfl
    | some .minus => rw [coefficient?, if_neg hplain, if_pos hhyphen]; rfl
  · rw [if_neg hdigits, if_neg hdigits]
    rw [coefficient?, if_pos hname]

theorem words?_stem (sign : Option Sign) (digits : List Char)
    (hletter : letter = 'n' ∨ letter = 'N') (name : List Char) :
    odd? (stem sign digits (letter :: name)) = none ∧
      even? (stem sign digits (letter :: name)) = none ∧
        offsetAlone? (stem sign digits (letter :: name)) = none := by
  have hword : ∀ c chars, c.toLower = 'n' ∨ c.toLower = '-' →
      odd? [.ident (String.ofList (c :: chars))] = none ∧
        even? [.ident (String.ofList (c :: chars))] = none := by
    intro c chars hc
    constructor
    all_goals
      apply if_neg
      rw [equalsIgnoringCase_ofList, List.map_cons]
      intro h
      have hhead := (List.cons.inj h).1
      rcases hc with hc | hc
      all_goals
        rw [hc] at hhead
        cases hhead
  have hplain := hword letter name (.inl (toLower_letter hletter))
  have hhyphen := hword '-' (letter :: name) (.inr rfl)
  unfold stem
  split
  · match sign with
    | none => exact ⟨hplain.1, hplain.2, rfl⟩
    | some .plus => exact ⟨rfl, rfl, rfl⟩
    | some .minus => exact ⟨hhyphen.1, hhyphen.2, rfl⟩
  · exact ⟨rfl, rfl, rfl⟩

theorem valueOf_stem (sign : Option Sign) (digits : List Char)
    (hletter : letter = 'n' ∨ letter = 'N') :
    valueOf (stem sign digits [letter]) = some (stepOf sign digits, 0) := by
  have hstep : coefficient? "" (stem sign digits [letter]) = some (stepOf sign digits) :=
    coefficient?_stem sign digits hletter ""
  obtain ⟨hodd, heven, hoffset⟩ := words?_stem sign digits hletter []
  rw [valueOf_eq, hodd, heven, hoffset, stepAlone?, hstep]
  rfl

theorem dashDigits?_letter (digits : List Char) (hletter : letter = 'n' ∨ letter = 'N') :
    dashDigits? (String.ofList (letter :: '-' :: digits)) = (digits? digits).map (1, ·) ∧
      dashDigits? (String.ofList ('-' :: letter :: '-' :: digits)) =
        (digits? digits).map (-1, ·) := by
  rcases hletter with rfl | rfl
  all_goals
    unfold dashDigits?
    rw [String.toList_ofList, String.toList_ofList]
    exact ⟨rfl, rfl⟩

theorem digits?_eq (hne : digits ≠ []) (hdigits : ∀ c ∈ digits, c.isDigit = true)
    (hfits : (Nat.ofDigitChars 10 digits 0 : Int) < 2 ^ 63) :
    digits? digits = some (Nat.ofDigitChars 10 digits 0 : Int) := by
  have hword : Numeral.fitsWord (decimalValue digits) = true :=
    Numeral.fitsWord_iff.2 ⟨by omega, hfits⟩
  have hall : (!digits.isEmpty && digits.all Char.isDigit &&
      Numeral.fitsWord (decimalValue digits)) = true := by
    rw [hword, List.all_eq_true.2 hdigits]
    simp [hne]
  rw [digits?, if_pos hall]
  rfl

theorem not_equalsIgnoringCase_of_length {chars : List Char} {t : String}
    (h : t.length < chars.length) : ¬ equalsIgnoringCase (String.ofList chars) t = true := by
  intro heq
  have hlength := congrArg List.length ((equalsIgnoringCase_ofList _ _).1 heq)
  rw [List.length_map, List.length_map, String.length_toList] at hlength
  omega

theorem stepAlone?_stem_of_length (sign : Option Sign) (digits : List Char) (h : 2 < name.length) :
    stepAlone? (stem sign digits name) = none := by
  have hplain : ¬ equalsIgnoringCase (String.ofList name) ("n" ++ "") = true :=
    not_equalsIgnoringCase_of_length (Nat.lt_trans (by decide) h)
  have hhyphen : ¬ equalsIgnoringCase (String.ofList name) ("-n" ++ "") = true :=
    not_equalsIgnoringCase_of_length h
  have hbehind : ∀ t : String, t.length ≤ 2 →
      ¬ equalsIgnoringCase (String.ofList ('-' :: name)) t = true := by
    intro t ht
    apply not_equalsIgnoringCase_of_length
    rw [List.length_cons]
    omega
  rw [stepAlone?, Option.map_eq_none_iff]
  unfold stem
  split
  · rcases sign with _ | (_ | _)
    · rw [coefficient?, if_neg hplain, if_neg hhyphen]
    · rw [coefficient?, if_neg hplain]
    · rw [coefficient?, if_neg (hbehind _ (by decide)), if_neg (hbehind _ (by decide))]
  · rw [coefficient?, if_neg hplain]

theorem valueOf_fused (sign : Option Sign) (digits : List Char) {behind : List Char}
    (hletter : letter = 'n' ∨ letter = 'N') (hne : behind ≠ [])
    (hbehind : ∀ c ∈ behind, c.isDigit = true)
    (hfits : (Nat.ofDigitChars 10 behind 0 : Int) < 2 ^ 63) :
    valueOf (stem sign digits (letter :: '-' :: behind)) =
      some (stepOf sign digits, -(Nat.ofDigitChars 10 behind 0 : Int)) := by
  have hlength : 2 < (letter :: '-' :: behind).length := by
    have := List.length_pos_iff.2 hne
    rw [List.length_cons, List.length_cons]
    omega
  have hfused : fused? (stem sign digits (letter :: '-' :: behind)) =
      some (stepOf sign digits, -(Nat.ofDigitChars 10 behind 0 : Int)) := by
    obtain ⟨hplain, hhyphen⟩ := dashDigits?_letter behind hletter
    rw [digits?_eq hne hbehind hfits] at hplain hhyphen
    unfold stem stepOf
    split
    · rcases sign with _ | (_ | _)
      · simp only [fused?, hplain, Option.map_some, negate_natCast hfits]; rfl
      · simp only [fused?, hplain, Option.map_some, negate_natCast hfits]; rfl
      · simp only [fused?, hhyphen, Option.map_some, negate_natCast hfits]; rfl
    · simp only [fused?, hplain, Option.map_some, negate_natCast hfits]
  obtain ⟨hodd, heven, hoffset⟩ := words?_stem sign digits hletter ('-' :: behind)
  rw [valueOf_eq, hodd, heven, hoffset, stepAlone?_stem_of_length sign digits hlength, hfused]
  rfl

end Step

/-! ## Atoms that play parts -/

/-- The atoms that are not blank play the parts, one each. -/
inductive AtomsPlay : List Atom → List Part → Prop
  | nil : AtomsPlay [] []
  | blank {a : Atom} {atoms : List Atom} {parts : List Part} (blank : a.IsBlank)
      (rest : AtomsPlay atoms parts) : AtomsPlay (a :: atoms) parts
  | part {a : Atom} {part : Part} {atoms : List Atom} {parts : List Part}
      (plays : ∀ span, Part.ofToken? (.atom a span) = some part) (rest : AtomsPlay atoms parts) :
      AtomsPlay (a :: atoms) (part :: parts)

section Atoms

variable {atoms front back : List Atom} {parts frontParts backParts : List Part}
  {tokens : List Token}

theorem AtomsPlay.append (h : AtomsPlay front frontParts) (h' : AtomsPlay back backParts) :
    AtomsPlay (front ++ back) (frontParts ++ backParts) := by
  induction h with
  | nil => exact h'
  | blank blank _ ih => exact .blank blank ih
  | part plays _ ih => exact .part plays ih

theorem atomsPlay_of_isBlank (h : ∀ a ∈ atoms, a.IsBlank) : AtomsPlay atoms [] := by
  induction atoms with
  | nil => exact .nil
  | cons a atoms ih =>
      obtain ⟨ha, hatoms⟩ := List.forall_mem_cons.1 h
      exact .blank ha (ih hatoms)

theorem isInsignificant_atom_iff {a : Atom} {span : Span} :
    (Token.atom a span).isInsignificant = true ↔ a.IsBlank := by
  cases a <;> simp [Token.isInsignificant, Atom.IsBlank]

theorem AtomsPlay.plays (h : AtomsPlay atoms parts) (htokens : AreTokens atoms tokens) :
    Plays (Token.significant tokens) parts := by
  induction h generalizing tokens with
  | nil =>
      cases htokens
      exact .nil
  | blank blank _ ih =>
      cases htokens with
      | cons hspan htokens =>
          obtain ⟨span, rfl⟩ := hspan
          rw [Token.significant_cons_of_isInsignificant (isInsignificant_atom_iff.2 blank)]
          exact ih htokens
  | part plays _ ih =>
      cases htokens with
      | cons hspan htokens =>
          obtain ⟨span, rfl⟩ := hspan
          have hsignificant := significant_of_ofToken? (plays span)
          rw [Bool.and_eq_true, Bool.not_eq_true', Bool.not_eq_true'] at hsignificant
          rw [Token.significant_cons hsignificant.2 hsignificant.1]
          exact .cons (plays span) (ih htokens)

theorem AtomsPlay.ne_paren (h : AtomsPlay atoms parts) :
    ∀ a ∈ atoms, a ≠ .leftParen ∧ a ≠ .rightParen := by
  induction h with
  | nil => simp
  | blank blank _ ih =>
      refine List.forall_mem_cons.2 ⟨?_, ih⟩
      constructor
      all_goals
        rintro rfl
        exact blank
  | part plays _ ih =>
      refine List.forall_mem_cons.2 ⟨?_, ih⟩
      constructor
      all_goals
        rintro rfl
        cases plays ⟨0, 0⟩

/-- The atoms do not begin with blank text, nor with a plus sign and blank text behind it. -/
def Leads (atoms : List Atom) : Prop :=
  ∃ a more, atoms = a :: more ∧ ¬ a.IsBlank ∧
    (a = .delim '+' → ∃ b others, more = b :: others ∧ ¬ b.IsBlank)

end Atoms

/-! ## Spellings as atoms -/

section Spellings

variable {sign : Option Sign} {digits name behind rest : List Char} {letter : Char}

theorem wholeValue_ofDigits (sign : Option Sign) (digits : List Char) :
    (Numeral.ofDigits sign digits).wholeValue =
      Sign.applyTo sign (Nat.ofDigitChars 10 digits 0) := by
  match sign with
  | none => rfl
  | some .plus => rfl
  | some .minus => rfl

theorem fitsWord_applyTo {n : Nat} (sign : Option Sign) (h : (n : Int) < 2 ^ 63) :
    Numeral.fitsWord (Sign.applyTo sign n) = true := by
  rw [Numeral.fitsWord_iff]
  match sign with
  | none | some .plus =>
      change -2 ^ 63 ≤ (n : Int) ∧ (n : Int) < 2 ^ 63
      omega
  | some .minus =>
      change -2 ^ 63 ≤ -(n : Int) ∧ -(n : Int) < 2 ^ 63
      omega

theorem integer?_ofDigits
    (h : Numeral.fitsWord (Sign.applyTo sign (Nat.ofDigitChars 10 digits 0)) = true) :
    (Numeral.ofDigits sign digits).numeric.integer? =
      some (Sign.applyTo sign (Nat.ofDigitChars 10 digits 0)) := by
  rw [← wholeValue_ofDigits] at h ⊢
  exact Numeral.integer?_ofDigits h

theorem exists_atoms_stem (sign : Option Sign) (hdigits : ∀ c ∈ digits, c.isDigit = true)
    (hletter : letter = 'n' ∨ letter = 'N') (hname : ∀ c ∈ name, isIdent c = true)
    (hrest : EndsName rest) (hfits : Numeral.fitsWord (stepOf sign digits) = true) :
    ∃ atoms, FallsInto rest (Sign.source sign ++ (digits ++ (letter :: name ++ rest))) atoms ∧
      AtomsPlay atoms (stem sign digits (letter :: name)) ∧ Leads atoms := by
  by_cases hne : digits = []
  · subst hne
    match sign with
    | none =>
        exact ⟨_, fallsInto_ident hletter hname hrest, .part (fun _ => rfl) .nil,
          _, _, rfl, id, by simp⟩
    | some .plus =>
        exact ⟨_, fallsInto_plus_ident hletter hname hrest,
          .part (fun _ => rfl) (.part (fun _ => rfl) .nil), _, _, rfl, id, fun _ => ⟨_, _, rfl, id⟩⟩
    | some .minus =>
        exact ⟨_, fallsInto_hyphen_ident hletter hname hrest, .part (fun _ => rfl) .nil,
          _, _, rfl, id, by simp⟩
  · rw [stepOf, if_neg hne] at hfits
    refine ⟨_, fallsInto_dimension sign hne hdigits hletter hname hrest, ?_, _, _, rfl, id, by simp⟩
    unfold stem
    rw [if_neg hne]
    refine .part (fun _ => ?_) .nil
    rw [Part.ofToken?, integer?_ofDigits hfits, Option.map_some]

theorem exists_atoms_close (hbehind : BlankText behind) :
    Breaks (behind ++ [')']) ∧ ∃ atoms, FallsInto [')'] (behind ++ [')']) atoms ∧
      AtomsPlay atoms [] := by
  obtain ⟨blanks, hblanks, hfalls⟩ := hbehind.exists_fallsInto (by decide : isBlank ')' = false) []
  exact ⟨hbehind.breaks ⟨')', by decide, [], rfl⟩, blanks, hfalls, atomsPlay_of_isBlank hblanks⟩

theorem exists_atoms_number (sign : Option Sign) (hne : digits ≠ [])
    (hdigits : ∀ c ∈ digits, c.isDigit = true) (hbehind : BlankText behind)
    (hfits : (Nat.ofDigitChars 10 digits 0 : Int) < 2 ^ 63) :
    ∃ atoms, FallsInto [')'] (Sign.source sign ++ (digits ++ (behind ++ [')']))) atoms ∧
      AtomsPlay atoms
        [Part.integer (Sign.applyTo sign (Nat.ofDigitChars 10 digits 0)) sign.isSome] := by
  obtain ⟨hbreaks, blanks, hfalls, hblanks⟩ := exists_atoms_close hbehind
  refine ⟨_, (fallsInto_number sign hne hdigits hbreaks).append hfalls, .part (fun _ => ?_) hblanks⟩
  rw [Part.ofToken?, integer?_ofDigits (fitsWord_applyTo sign hfits), Option.map_some]
  rfl

/-- The text behind the letter of a step goes on with a name and atoms that give the offset. -/
def Continues (sign : Option Sign) (digits : List Char) (letter : Char) (offset : Int)
    (text : List Char) : Prop :=
  ∃ name rest atoms parts, text = name ++ rest ∧ (∀ c ∈ name, isIdent c = true) ∧ EndsName rest ∧
    FallsInto [')'] rest atoms ∧ AtomsPlay atoms parts ∧
      valueOf (stem sign digits (letter :: name) ++ parts) = some (stepOf sign digits, offset)

theorem continues_alone (hletter : letter = 'n' ∨ letter = 'N') (hbehind : BlankText behind) :
    Continues sign digits letter 0 (behind ++ [')']) := by
  obtain ⟨hbreaks, blanks, hfalls, hblanks⟩ := exists_atoms_close hbehind
  refine ⟨[], _, blanks, [], rfl, by simp, hbreaks.endsName, hfalls, hblanks, ?_⟩
  rw [List.append_nil]
  exact valueOf_stem sign digits hletter

namespace WrittenOffset

variable {offset : WrittenOffset}

def number (offset : WrittenOffset) : Nat :=
  Nat.ofDigitChars 10 offset.digits 0

theorem exists_atoms_behind (offset : WrittenOffset) (hbehind : BlankText behind)
    (hfits : (offset.number : Int) < 2 ^ 63) :
    ∃ atoms, FallsInto [')'] (offset.behind ++ (offset.digits ++ (behind ++ [')']))) atoms ∧
      AtomsPlay atoms [Part.integer offset.number false] := by
  obtain ⟨numbers, hnumber, hplays⟩ := exists_atoms_number none offset.digits_ne_nil
    offset.isDigit_of_mem hbehind hfits
  obtain ⟨d, ds, hdigits⟩ := List.exists_cons_of_ne_nil offset.digits_ne_nil
  have hd : d.isDigit = true := offset.isDigit_of_mem d (by rw [hdigits]; exact List.mem_cons_self)
  obtain ⟨blanks, hblanks, hblank⟩ := offset.behind_blank.exists_fallsInto
    (isBlank_of_isDigit hd) (ds ++ (behind ++ [')']))
  rw [← List.cons_append, ← hdigits] at hblank
  exact ⟨_, hblank.append hnumber, (atomsPlay_of_isBlank hblanks).append hplays⟩

theorem source_append (offset : WrittenOffset) (rest : List Char) :
    offset.source ++ rest =
      offset.before ++ offset.sign.char :: (offset.behind ++ (offset.digits ++ rest)) := by
  simp [source]

theorem continues_apart (hletter : letter = 'n' ∨ letter = 'N') (hbehind : BlankText behind)
    (hfits : (offset.number : Int) < 2 ^ 63) (happart : offset.sign = .plus ∨ offset.before ≠ []) :
    Continues sign digits letter offset.value (offset.source ++ (behind ++ [')'])) := by
  have hstep := coefficient?_stem sign digits hletter ""
  have hends : EndsName (offset.source ++ (behind ++ [')'])) := by
    rw [source_append]
    by_cases hbefore : offset.before = []
    · obtain hplus | hne := happart
      · rw [hbefore, hplus]
        intro c hc
        obtain rfl := Option.mem_some_iff.1 hc
        decide
      · exact absurd hbefore hne
    · exact (offset.before_blank.breaks_of_ne_nil hbefore _).endsName
  have hsign : isBlank offset.sign.char = false := by
    cases offset.sign <;> rfl
  obtain ⟨blanks, hblanks, hblank⟩ := offset.before_blank.exists_fallsInto hsign
    (offset.behind ++ (offset.digits ++ (behind ++ [')'])))
  rw [← source_append] at hblank
  by_cases hnil : offset.behind = []
  · obtain ⟨numbers, hnumber, hplays⟩ := exists_atoms_number (some offset.sign)
      offset.digits_ne_nil offset.isDigit_of_mem hbehind hfits
    rw [hnil] at hblank
    exact ⟨[], _, _, _, rfl, by simp, hends, hblank.append hnumber,
      (atomsPlay_of_isBlank hblanks).append hplays, valueOf_signed hstep⟩
  · obtain ⟨numbers, hnumber, hplays⟩ := offset.exists_atoms_behind hbehind hfits
    have hdelim := fallsInto_sign offset.sign (offset.behind_blank.breaks_of_ne_nil hnil
      (offset.digits ++ (behind ++ [')'])))
    have hpart : AtomsPlay (.delim offset.sign.char :: numbers)
        [signPart offset.sign, Part.integer offset.number false] := by
      refine .part (fun _ => ?_) hplays
      cases offset.sign <;> rfl
    exact ⟨[], _, _, _, rfl, by simp, hends, hblank.append (hdelim.append hnumber),
      (atomsPlay_of_isBlank hblanks).append hpart, valueOf_separate hstep offset.sign hfits⟩

theorem continues_dashed (hletter : letter = 'n' ∨ letter = 'N') (hbehind : BlankText behind)
    (hfits : (offset.number : Int) < 2 ^ 63) (hsign : offset.sign = .minus)
    (hbefore : offset.before = []) (hne : offset.behind ≠ []) :
    Continues sign digits letter offset.value (offset.source ++ (behind ++ [')'])) := by
  have hstep := coefficient?_stem sign digits hletter "-"
  obtain ⟨numbers, hnumber, hplays⟩ := offset.exists_atoms_behind hbehind hfits
  have hends := (offset.behind_blank.breaks_of_ne_nil hne
    (offset.digits ++ (behind ++ [')']))).endsName
  refine ⟨['-'], _, numbers, _, ?_, by simp [isIdent], hends, hnumber, hplays, ?_⟩
  · rw [source_append, hbefore, hsign]
    rfl
  · rw [value, hsign]
    exact valueOf_dashed hstep hfits

theorem continues_fused (hletter : letter = 'n' ∨ letter = 'N') (hbehind : BlankText behind)
    (hfits : (offset.number : Int) < 2 ^ 63) (hsign : offset.sign = .minus)
    (hbefore : offset.before = []) (hnil : offset.behind = []) :
    Continues sign digits letter offset.value (offset.source ++ (behind ++ [')'])) := by
  have hname : ∀ c ∈ '-' :: offset.digits, isIdent c = true := by
    refine List.forall_mem_cons.2 ⟨by decide, fun c hc => ?_⟩
    simp [isIdent, offset.isDigit_of_mem c hc]
  obtain ⟨hbreaks, blanks, hfalls, hblanks⟩ := exists_atoms_close hbehind
  refine ⟨'-' :: offset.digits, _, blanks, [], ?_, hname, hbreaks.endsName, hfalls, hblanks, ?_⟩
  · rw [source_append, hbefore, hsign, hnil]
    rfl
  · rw [List.append_nil, value, hsign]
    exact valueOf_fused sign digits hletter offset.digits_ne_nil offset.isDigit_of_mem hfits

theorem continues (hletter : letter = 'n' ∨ letter = 'N') (hbehind : BlankText behind)
    (hfits : (offset.number : Int) < 2 ^ 63) :
    Continues sign digits letter offset.value (offset.source ++ (behind ++ [')'])) := by
  by_cases happart : offset.sign = .plus ∨ offset.before ≠ []
  · exact continues_apart hletter hbehind hfits happart
  · rw [not_or, not_not] at happart
    obtain ⟨hplus, hbefore⟩ := happart
    have hsign : offset.sign = .minus := by
      cases hs : offset.sign
      · exact absurd hs hplus
      · rfl
    by_cases hnil : offset.behind = []
    · exact continues_fused hletter hbehind hfits hsign hbefore hnil
    · exact continues_dashed hletter hbehind hfits hsign hbefore hnil

end WrittenOffset

theorem abs_applyTo (sign : Option Sign) (n : Nat) : |Sign.applyTo sign n| = n := by
  match sign with
  | none | some .plus => exact abs_of_nonneg (Int.natCast_nonneg n)
  | some .minus => exact (abs_neg _).trans (abs_of_nonneg (Int.natCast_nonneg n))

theorem Written.continues (w : Written) (hoffset : |w.offsetValue| < 2 ^ 63) :
    Continues w.sign w.digits w.letter w.offsetValue
      ((w.offset.map WrittenOffset.source).getD [] ++ (w.behind ++ [')'])) := by
  unfold offsetValue at hoffset ⊢
  cases hw : w.offset with
  | none => exact continues_alone w.letter_eq w.behind_blank
  | some offset =>
      rw [hw] at hoffset
      have hfits : (offset.number : Int) < 2 ^ 63 := by
        rw [← abs_applyTo offset.sign]
        exact hoffset
      exact WrittenOffset.continues w.letter_eq w.behind_blank hfits

theorem exists_cons_step (sign : Option Sign) (hdigits : ∀ c ∈ digits, c.isDigit = true)
    (hletter : letter = 'n' ∨ letter = 'N') (rest : List Char) :
    ∃ c tail, Sign.source sign ++ (digits ++ letter :: rest) = c :: tail ∧ isBlank c = false := by
  match sign with
  | some .plus => exact ⟨'+', _, rfl, rfl⟩
  | some .minus => exact ⟨'-', _, rfl, rfl⟩
  | none =>
      cases digits with
      | nil => exact ⟨letter, rest, rfl, by rcases hletter with rfl | rfl <;> rfl⟩
      | cons d digits => exact ⟨d, _, rfl, isBlank_of_isDigit (hdigits d List.mem_cons_self)⟩

theorem Written.exists_atoms (w : Written) (hstep : Numeral.fitsWord w.step = true)
    (hoffset : |w.offsetValue| < 2 ^ 63) :
    ∃ blanks atoms parts, (∀ a ∈ blanks, a.IsBlank) ∧ Leads atoms ∧
      FallsInto [')'] (w.source ++ [')']) (blanks ++ atoms) ∧ AtomsPlay atoms parts ∧
        valueOf parts = some (w.step, w.offsetValue) := by
  obtain ⟨name, rest, atoms, parts, htext, hname, hrest, hfalls, hplays, hvalue⟩ :=
    w.continues hoffset
  obtain ⟨stems, hstem, hstems, hleads⟩ := exists_atoms_stem w.sign w.isDigit_of_mem w.letter_eq
    hname hrest hstep
  obtain ⟨c, tail, hcons, hc⟩ := exists_cons_step w.sign w.isDigit_of_mem w.letter_eq (name ++ rest)
  obtain ⟨blanks, hblanks, hblank⟩ := w.before_blank.exists_fallsInto hc tail
  have hsource : w.source ++ [')'] = w.before ++ c :: tail := by
    rw [← hcons, ← htext]
    simp [source]
  rw [← hcons] at hblank
  refine ⟨blanks, stems ++ atoms, _, hblanks, ?_, ?_, hstems.append hplays, hvalue⟩
  · obtain ⟨a, more, rfl, ha, hplus⟩ := hleads
    refine ⟨a, more ++ atoms, rfl, ha, fun h => ?_⟩
    obtain ⟨b, others, rfl, hb⟩ := hplus h
    exact ⟨b, others ++ atoms, rfl, hb⟩
  · rw [hsource, ← hcons]
    exact hblank.append (hstem.append hfalls)

end Spellings

/-! ## Reading a spelling -/

section Reading

variable {blanks atoms : List Atom} {tokens : List Token}

theorem dropWhile_areTokens (h : AreTokens (blanks ++ atoms) tokens)
    (hblanks : ∀ a ∈ blanks, a.IsBlank) (hleads : Leads atoms) :
    AreTokens atoms (tokens.dropWhile Token.isInsignificant) := by
  induction blanks generalizing tokens with
  | nil =>
      obtain ⟨a, more, rfl, ha, -⟩ := hleads
      cases h with
      | cons hspan htokens =>
          obtain ⟨span, rfl⟩ := hspan
          rw [List.dropWhile_cons_of_neg (mt isInsignificant_atom_iff.1 ha)]
          exact .cons ⟨span, rfl⟩ htokens
  | cons a blanks ih =>
      obtain ⟨ha, hblanks⟩ := List.forall_mem_cons.1 hblanks
      cases h with
      | cons hspan htokens =>
          obtain ⟨span, rfl⟩ := hspan
          rw [List.dropWhile_cons_of_pos (isInsignificant_atom_iff.2 ha)]
          exact ih htokens hblanks

theorem not_plusThenBlank_trim (h : AreTokens (blanks ++ atoms) tokens)
    (hblanks : ∀ a ∈ blanks, a.IsBlank) (hleads : Leads atoms) :
    ¬ PlusThenBlank (Token.trim tokens) := by
  rintro ⟨plus, blank, rest, htrim, hplus, hblank⟩
  obtain ⟨span, rfl⟩ := Token.isDelim_iff.1 hplus
  obtain ⟨front, back, htokens, hfront, -⟩ := Token.exists_eq_append_trim tokens
  have hdrop := dropWhile_areTokens h hblanks hleads
  rw [htokens, htrim, List.dropWhile_append_of_pos hfront, List.cons_append,
    List.dropWhile_cons_of_neg (by simp [Token.isInsignificant])] at hdrop
  obtain ⟨a, more, rfl, -, hsecond⟩ := hleads
  cases hdrop with
  | cons hspan hdrop =>
      obtain ⟨_, heq⟩ := hspan
      obtain ⟨b, others, rfl, hb⟩ := hsecond (by cases heq; rfl)
      cases hdrop with
      | cons hspan _ =>
          obtain ⟨_, rfl⟩ := hspan
          exact hb (isInsignificant_atom_iff.1 hblank)

theorem says_of_areTokens (inner : Grammar) {parts : List Part} {a b : Int}
    (h : AreTokens (blanks ++ atoms) tokens) (hblanks : ∀ a ∈ blanks, a.IsBlank)
    (hleads : Leads atoms) (hplays : AtomsPlay atoms parts) (hvalue : valueOf parts = some (a, b)) :
    Token.trim tokens ≠ [] ∧
      Grammar.Says inner (Token.trim tokens) (.anPlusB ⟨Token.significant tokens, a, b⟩) := by
  have hsignificant : Plays (Token.significant tokens) parts :=
    ((atomsPlay_of_isBlank hblanks).append hplays).plays h
  have hderive : derive (Token.significant tokens) = some (a, b) := by
    rw [derive, hsignificant.parts?]
    exact hvalue
  constructor
  · intro hnil
    rw [← Token.significant_trim, hnil] at hderive
    cases hderive
  · rw [← Token.significant_trim] at hderive ⊢
    let value : AnPlusB := ⟨Token.significant (Token.trim tokens), a, b⟩
    have hmatches : ∃ leftover, Grammar.anPlusB.Matches (Token.trim tokens) value leftover :=
      (Grammar.exists_matches_anPlusB_iff_derive (Token.solid_trim tokens)).2
        ⟨hderive, rfl, not_plusThenBlank_trim h hblanks hleads⟩
    obtain ⟨leftover, hmatches⟩ := hmatches
    exact .anPlusB hmatches

end Reading

end AnPlusB

theorem exists_tokenize_function {source : List Char} {atoms : List Atom}
    (h : FallsInto [')'] (source ++ [')']) atoms)
    (hatoms : ∀ a ∈ atoms, a ≠ .leftParen ∧ a ≠ .rightParen) :
    ∃ tokens colon span stop, AreTokens atoms tokens ∧
      tokenize (":f(" ++ String.ofList source ++ ")") =
        [.atom .colon colon, .function "f" tokens span, .atom .eof stop] := by
  let text := ':' :: 'f' :: '(' :: (source ++ [')'])
  have htext : (":f(" ++ String.ofList source ++ ")").toList = text := by
    simp [text]
  have hident : Lexeme.ident ('f' :: '(' :: (source ++ [')'])) =
      (['f'], '(' :: (source ++ [')'])) := by
    rw [Lexeme.ident, if_pos (by decide), Lexeme.ident, if_neg (by decide),
      if_neg (by simp [Lexeme.startsEscape])]
  have hname : Lexeme.scan 'f' ('(' :: (source ++ [')'])) = (.function "f", source ++ [')']) :=
    Lexeme.scanIdentLike_of_paren hident
  have hcolon : Lexeme.scan ':' ('f' :: '(' :: (source ++ [')'])) =
      (.atom .colon, 'f' :: '(' :: (source ++ [')'])) := rfl
  obtain ⟨colon, name, start, hlexemes⟩ : ∃ colon name start, placedLexemes 0 text =
      ⟨.atom .colon, colon⟩ :: ⟨.function "f", name⟩ :: placedLexemes start (source ++ [')']) := by
    rw [placedLexemes, hcolon]
    dsimp only
    rw [placedLexemes, hname]
    exact ⟨_, _, _, rfl⟩
  obtain ⟨lexemes, tokens, finish, hinner, hforms, htokens⟩ := h.exists_tokens start text.length
  obtain ⟨close, hclose⟩ : ∃ close, placedLexemes finish [')'] = [⟨.atom .rightParen, close⟩] := by
    rw [placedLexemes, show Lexeme.scan ')' [] = (.atom .rightParen, []) from rfl]
    dsimp only
    rw [placedLexemes]
    exact ⟨_, rfl⟩
  refine ⟨tokens, colon, ⟨name.start, close.stop⟩, ⟨text.length, text.length⟩, htokens, ?_⟩
  have hnest : Token.nest text.length (placedLexemes 0 text) =
      [.atom .colon colon, .function "f" tokens ⟨name.start, close.stop⟩] := by
    rw [hlexemes, hinner, hclose]
    exact nest_eq_iff.2 ⟨false, .atom (.closed hforms (htokens.parens hatoms 0) .nil)⟩
  rw [tokenize, tokensFrom, htext, Nat.zero_add, hnest]
  rfl

theorem parseTokens_function {options : Options} {name : String} {tokens : List Token} {span : Span}
    {arguments : Arguments}
    (h : (Grammar.ofLevels options.dialect options.maxDepth).Yields (.function name tokens span)
      arguments) (colon stop : Span) :
    parseTokens options [.atom .colon colon, .function name tokens span, .atom .eof stop] =
      .ok [.complex (.last
        ⟨none, [.pseudoClass (.function (.function name tokens span) arguments)], []⟩)] := by
  apply parseTokens_eq_ok_iff.2
  refine ⟨⟨by simp, ?_, ?_⟩, ?_⟩
  · intro s hs
    obtain rfl := List.mem_singleton.1 hs
    exact ⟨by simp, by simp [Subclass.WellFormedBy, PseudoClass.WellFormed, Token.isFunction],
      by simp, by simp⟩
  · intro call hcall
    obtain rfl := List.mem_singleton.1 hcall
    exact h
  · change Spells [.gap false, .mark .colon, .stored (.function name tokens span), .gap false]
      [.atom .colon colon, .function name tokens span] []
    exact ⟨[], _, rfl, by simp, by simp, colon, _, rfl, _, rfl, spells_gap_self⟩

/-- The value of An+B is the one that is written, however it is written. -/
theorem parse_written_anPlusB (w : AnPlusB.Written) (options : Options) {a b : Int}
    (hstep : w.step = a) (hoffset : w.offsetValue = b) (ha : -2 ^ 63 ≤ a ∧ a < 2 ^ 63)
    (hb : |b| < 2 ^ 63) (hdepth : 1 ≤ options.maxDepth) :
    ∃ (function : Token) (value : AnPlusB),
      function.functionName? = some "f" ∧ value.a = a ∧ value.b = b ∧
        parse options (":f(" ++ String.ofList w.source ++ ")") = .ok [.complex (.last
          ⟨none, [.pseudoClass (.function function (.anPlusB value))], []⟩)] := by
  obtain ⟨blanks, atoms, parts, hblanks, hleads, hfalls, hplays, hvalue⟩ :=
    w.exists_atoms (Numeral.fitsWord_iff.2 (hstep ▸ ha)) (hoffset ▸ hb)
  have hatoms := ((AnPlusB.atomsPlay_of_isBlank hblanks).append hplays).ne_paren
  obtain ⟨tokens, colon, span, stop, htokens, htokenize⟩ := exists_tokenize_function hfalls hatoms
  rw [hstep, hoffset] at hvalue
  refine ⟨.function "f" tokens span, ⟨Token.significant tokens, a, b⟩, rfl, rfl, rfl, ?_⟩
  rw [parse, htokenize]
  obtain ⟨dialect, _ | levels⟩ := options
  · cases hdepth
  · obtain ⟨hne, hsays⟩ := AnPlusB.says_of_areTokens (Grammar.ofLevels dialect levels) htokens
      hblanks hleads hplays hvalue
    have harguments : Grammar.argumentTokens (.function "f" tokens span) ≠ [] := hne
    exact parseTokens_function ((Grammar.yields_succ_iff harguments).2 hsays) colon stop

theorem parse_written_anPlusB_apart :
    ∃ (function : Token) (value : AnPlusB),
      function.functionName? = some "f" ∧ value.a = 3 ∧ value.b = -40 ∧
        parse ⟨.standard, 1⟩ (":f(" ++ "\t+03N/*n*/- 040" ++ ")") = .ok [.complex (.last
          ⟨none, [.pseudoClass (.function function (.anPlusB value))], []⟩)] := by
  have hcomment : BlankText "/*n*/".toList :=
    .comment (show ¬ ['*', '/'] <:+: ['n'] by decide) .nil
  let offset : AnPlusB.WrittenOffset :=
    ⟨"/*n*/".toList, .minus, [' '], ['0', '4', '0'], hcomment, .blank rfl .nil, by simp, by simp⟩
  let written : AnPlusB.Written :=
    ⟨['\t'], some .plus, ['0', '3'], 'N', some offset, [], .blank rfl .nil, by simp, .inr rfl, .nil⟩
  have hsource : String.ofList written.source = "\t+03N/*n*/- 040" := rfl
  rw [← hsource]
  exact parse_written_anPlusB written ⟨.standard, 1⟩ rfl rfl (by decide) (by decide) (by decide)

end CssSelectors
