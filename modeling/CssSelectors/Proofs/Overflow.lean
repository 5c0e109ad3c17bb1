import CssSelectors.Proofs.Derivation
import CssSelectors.Proofs.Tokens.Numbers

/-!
# Overflow

The value of An+B with arithmetic that is checked, where a negation that leaves the 64-bit
numbers gives nothing, beside arithmetic that wraps around. The two differ only at the least
number, and no text writes that one without a sign.
-/

namespace CssSelectors

variable {α β : Type}

/-- The checked result is the unchecked one, or a check fails, as none does if `passes`. -/
def Checks (passes : Prop) (checked : Option α) (a : α) : Prop :=
  checked = some a ∨ checked = none ∧ ¬ passes

namespace Checks

variable {passes passes' : Prop} {checked : Option α} {a : α}

theorem of_eq_some (h : checked = some a) : Checks passes checked a :=
  .inl h

theorem eq_some (h : Checks passes checked a) (hpasses : passes) : checked = some a :=
  h.resolve_right fun ⟨_, hfails⟩ => hfails hpasses

theorem mono (h : Checks passes checked a) (himp : passes' → passes) : Checks passes' checked a :=
  h.imp_right fun ⟨hnone, hfails⟩ => ⟨hnone, mt himp hfails⟩

theorem bind {f : α → Option β} {b : β} (h : Checks passes checked a)
    (hf : Checks passes (f a) b) : Checks passes (checked.bind f) b := by
  rcases h with rfl | ⟨rfl, hfails⟩
  · exact hf
  · exact .inr ⟨rfl, hfails⟩

theorem map (h : Checks passes checked a) (f : α → β) : Checks passes (checked.map f) (f a) := by
  rcases h with rfl | ⟨rfl, hfails⟩
  · exact .inl rfl
  · exact .inr ⟨rfl, hfails⟩

end Checks

/-- The negative of a number, if it has 64 bits. -/
def negate? (i : Int) : Option Int :=
  if Numeral.fitsWord (-i) then some (-i) else none

theorem checks_negate? (i : Int) :
    Checks (Numeral.fitsWord (-i) = true) (negate? i) (AnPlusB.negate i) := by
  unfold negate?
  split
  · next hfits => exact .inl (congrArg some (AnPlusB.negate_eq_neg hfits).symm)
  · next hfits => exact .inr ⟨rfl, hfits⟩

/-- A number without a sign has a negative of 64 bits. -/
def Token.Negatable : Token → Prop
  | .atom (.number numeric) _ =>
    numeric.signed = false → ∀ i ∈ numeric.integer?, Numeral.fitsWord (-i) = true
  | _ => True

theorem Numeric.intValue_of_integer? {numeric : Numeric} {i : Int}
    (h : numeric.integer? = some i) : numeric.intValue = some i := by
  unfold integer? at h
  split at h
  · exact h
  · cases h

theorem Token.NumberWritten.negatable {t : Token} (h : t.NumberWritten) : t.Negatable := by
  unfold Negatable
  split
  · next numeric span =>
      intro hsigned i hi
      obtain ⟨hfits, hnonneg⟩ := h numeric rfl i (Numeric.intValue_of_integer? hi)
      exact Numeral.fitsWord_neg (hnonneg hsigned) hfits
  · trivial

namespace AnPlusB

/-! ## Shapes

Where a shape is checked, `none` is a number that leaves the 64-bit ones, and `some none` are
parts that do not have the shape. -/

abbrev CheckedShape := List Part → Option (Option (Int × Int))

def fusedChecked : CheckedShape
  | [.dimension value unit] =>
    match dashDigits? unit with
    | some (a, b) => (negate? b).map fun b => if a = 1 then some (value, b) else none
    | none => some none
  | [.plus, .ident name] =>
    match dashDigits? name with
    | some (a, b) => (negate? b).map fun b => if a = 1 then some (a, b) else none
    | none => some none
  | [.ident name] =>
    match dashDigits? name with
    | some (a, b) => (negate? b).map fun b => some (a, b)
    | none => some none
  | _ => some none

def dashedOffsetChecked : CheckedShape := fun parts =>
  match parts.getLast? with
  | some (.integer value false) =>
    match coefficient? "-" parts.dropLast with
    | some a => (negate? value).map fun b => some (a, b)
    | none => some none
  | _ => some none

def separateOffsetChecked : CheckedShape := fun parts =>
  match parts.dropLast.getLast?, parts.getLast? with
  | some .minus, some (.integer value false) =>
    match coefficient? "" parts.dropLast.dropLast with
    | some a => (negate? value).map fun b => some (a, b)
    | none => some none
  | _, _ => some (separateOffset? parts)

def shapesChecked : List CheckedShape :=
  [fun parts => some (odd? parts), fun parts => some (even? parts),
    fun parts => some (offsetAlone? parts), fun parts => some (stepAlone? parts), fusedChecked,
    fun parts => some (signedOffset? parts), dashedOffsetChecked, separateOffsetChecked]

/-- What the first shape that the parts have says, unless one before it or itself fails. -/
def firstShape : List CheckedShape → CheckedShape
  | [], _ => some none
  | shape :: shapes, parts =>
    match shape parts with
    | none => none
    | some (some pair) => some (some pair)
    | some none => firstShape shapes parts

def deriveChecked (tokens : List Token) : Option (Option (Int × Int)) :=
  match parts? tokens with
  | some parts => firstShape shapesChecked parts
  | none => some none

/-- An+B of tokens that have to have one of its shapes. -/
def ofTokensChecked (tokens : List Token) : Option AnPlusB :=
  match deriveChecked tokens with
  | some (some (a, b)) => some ⟨tokens, a, b⟩
  | _ => none

/-! ## Digits in a name -/

theorem digits?_bounds {text : List Char} {digits : Int} (h : digits? text = some digits) :
    0 ≤ digits ∧ Numeral.fitsWord digits = true := by
  unfold digits? at h
  split at h
  · next hdigits =>
      cases h
      rw [Bool.and_eq_true] at hdigits
      exact ⟨by omega, hdigits.2⟩
  · cases h

theorem dashDigits?_bounds {name : String} {a digits : Int}
    (h : dashDigits? name = some (a, digits)) :
    0 ≤ digits ∧ Numeral.fitsWord digits = true := by
  have hmap {text : List Char} {a' : Int} (h : (digits? text).map (a', ·) = some (a, digits)) :
      0 ≤ digits ∧ Numeral.fitsWord digits = true := by
    obtain ⟨_, hdigits, heq⟩ := Option.map_eq_some_iff.1 h
    cases heq
    exact digits?_bounds hdigits
  unfold dashDigits? at h
  split at h
  · split at h
    · exact hmap h
    · cases h
  · split at h
    · exact hmap h
    · cases h
  · cases h

theorem negate?_of_dashDigits? {name : String} {a digits : Int}
    (h : dashDigits? name = some (a, digits)) : negate? digits = some (negate digits) := by
  obtain ⟨hnonneg, hfits⟩ := dashDigits?_bounds h
  exact (checks_negate? digits).eq_some (Numeral.fitsWord_neg hnonneg hfits)

/-! ## Checked shapes -/

/-- The part is no integer without a sign whose negative has more than 64 bits. -/
def Part.Negatable : Part → Prop
  | .integer value false => Numeral.fitsWord (-value) = true
  | _ => True

variable {parts : List Part} {tokens : List Token}

/-- A name with a hyphen and digits can be negated before it is known whether it begins with a
hyphen. -/
theorem fusedChecked_eq (parts : List Part) : fusedChecked parts = some (fused? parts) := by
  unfold fusedChecked
  split
  · next value unit =>
      rw [fused?]
      cases hdigits : dashDigits? unit with
      | none => rfl
      | some pair =>
          obtain ⟨a, b⟩ := pair
          simp only [negate?_of_dashDigits? hdigits, Option.map_some]
          split <;> split <;> simp_all
  · next name =>
      rw [fused?]
      cases hdigits : dashDigits? name with
      | none => rfl
      | some pair =>
          obtain ⟨a, b⟩ := pair
          simp only [negate?_of_dashDigits? hdigits, Option.map_some]
          split <;> split <;> simp_all
  · next name =>
      rw [fused?]
      cases hdigits : dashDigits? name with
      | none => rfl
      | some pair => simp only [negate?_of_dashDigits? hdigits, Option.map_some]
  · next hdimension hplus hident =>
      rw [fused?]
      all_goals assumption

/-- An integer without a sign at the end of the parts is negated behind a step. -/
theorem checks_negate?_getLast? {value a : Int}
    (hlast : parts.getLast? = some (.integer value false)) :
    Checks (∀ part ∈ parts, part.Negatable) ((negate? value).map fun b => some (a, b))
      (some (a, negate value)) :=
  ((checks_negate? value).mono fun h => h _ (List.mem_of_getLast? hlast)).map fun b => some (a, b)

theorem checks_dashedOffset (parts : List Part) :
    Checks (∀ part ∈ parts, part.Negatable) (dashedOffsetChecked parts) (dashedOffset? parts) := by
  unfold dashedOffsetChecked
  split
  · next value hlast =>
      simp only [dashedOffset?, hlast]
      cases coefficient? "-" parts.dropLast with
      | none => exact .of_eq_some rfl
      | some a => exact checks_negate?_getLast? hlast
  · next hlast =>
      unfold dashedOffset?
      split
      · next value heq => exact absurd heq (hlast value)
      · exact .of_eq_some rfl

theorem checks_separateOffset (parts : List Part) :
    Checks (∀ part ∈ parts, part.Negatable) (separateOffsetChecked parts)
      (separateOffset? parts) := by
  unfold separateOffsetChecked
  split
  · next value hsign hlast =>
      simp only [separateOffset?, hsign, hlast]
      cases coefficient? "" parts.dropLast.dropLast with
      | none => exact .of_eq_some rfl
      | some a => exact checks_negate?_getLast? hlast
  · exact .of_eq_some rfl

theorem checks_firstShape {passes : Prop} {checked : List CheckedShape}
    {shapes : List (List Part → Option (Int × Int))}
    (h : List.Forall₂ (fun shape shape' => Checks passes (shape parts) (shape' parts))
      checked shapes) :
    Checks passes (firstShape checked parts) (shapes.findSome? (· parts)) := by
  induction h with
  | nil => exact .of_eq_some rfl
  | @cons _ shape' _ _ hshape _ ih =>
      rw [firstShape, List.findSome?_cons]
      rcases hshape with hshape | ⟨hshape, hfails⟩
      · rw [hshape]
        cases shape' parts with
        | none => exact ih
        | some pair => exact .of_eq_some rfl
      · rw [hshape]
        exact .inr ⟨rfl, hfails⟩

theorem negatable_ofToken? {t : Token} {part : Part} (ht : t.Negatable)
    (h : Part.ofToken? t = some part) : part.Negatable := by
  unfold Part.ofToken? at h
  split at h
  case h_4 numeric span =>
    obtain ⟨value, hvalue, rfl⟩ := Option.map_eq_some_iff.1 h
    cases hsigned : numeric.signed with
    | true => trivial
    | false => exact ht hsigned value hvalue
  case h_5 =>
    obtain ⟨value, -, rfl⟩ := Option.map_eq_some_iff.1 h
    trivial
  all_goals
    cases h
    try trivial

theorem Plays.exists_of_mem (h : Plays tokens parts) {part : Part} (hpart : part ∈ parts) :
    ∃ t ∈ tokens, Part.ofToken? t = some part := by
  induction h with
  | nil => cases hpart
  | cons ht _ ih =>
      rcases List.mem_cons.1 hpart with rfl | hpart
      · exact ⟨_, List.mem_cons_self, ht⟩
      · obtain ⟨t, hmem, ht⟩ := ih hpart
        exact ⟨t, List.mem_cons_of_mem _ hmem, ht⟩

theorem negatable_parts? (h : ∀ t ∈ tokens, t.Negatable) (hparts : parts? tokens = some parts) :
    ∀ part ∈ parts, part.Negatable := by
  intro part hpart
  obtain ⟨t, ht, hplayed⟩ := (plays_of_mapM hparts).exists_of_mem hpart
  exact negatable_ofToken? (h t (List.mem_of_mem_filter ht)) hplayed

/-! ## Checked values -/

theorem checks_derive (tokens : List Token) :
    Checks (∀ t ∈ tokens, t.Negatable) (deriveChecked tokens) (derive tokens) := by
  unfold deriveChecked derive
  cases hparts : parts? tokens with
  | none => exact .of_eq_some rfl
  | some parts =>
      have hshapes : Checks (∀ part ∈ parts, part.Negatable) (firstShape shapesChecked parts)
          (shapes.findSome? (· parts)) :=
        checks_firstShape <| .cons (.inl rfl) <| .cons (.inl rfl) <| .cons (.inl rfl) <|
          .cons (.inl rfl) <| .cons (.inl (fusedChecked_eq parts)) <| .cons (.inl rfl) <|
            .cons (checks_dashedOffset parts) <| .cons (checks_separateOffset parts) .nil
      exact hshapes.mono fun h => negatable_parts? h hparts

-- A number without a sign that is negative, which no text has.
example : deriveChecked [.atom (.ident "n-") ⟨0, 2⟩,
    .atom (.number (.ofInt (-9223372036854775808) false)) ⟨2, 3⟩] = none := by decide

theorem checks_ofTokens {value : AnPlusB} (h : ofTokens? tokens = some value) :
    Checks (∀ t ∈ tokens, t.Negatable) (ofTokensChecked tokens) value := by
  obtain ⟨⟨a, b⟩, hderive, rfl⟩ := Option.map_eq_some_iff.1 h
  have hchecks := checks_derive tokens
  rw [hderive] at hchecks
  unfold ofTokensChecked
  rcases hchecks with hchecked | ⟨hchecked, hfails⟩
  · rw [hchecked]
    exact .of_eq_some rfl
  · rw [hchecked]
    exact .inr ⟨rfl, hfails⟩

end AnPlusB

end CssSelectors
