import FieldGuide.Json.Writer
import FieldGuide.Proofs.Number.Numeral

/-!
# Text of numbers

A number is determined by its YAML text, and no number has the text of a boolean. A float
differs from an integer by a point or an exponent, and the infinities and not-a-number are
no numerals. The characters that a style writes finite doubles with are few.
-/

namespace FieldGuide

namespace FloatStyle

/-- The text of a double that is not finite is no numeral. -/
theorem read?_yaml_of_not_finite {value : Binary64} (special : value.isFinite = false) :
    Decimal.read? (yaml.text value) = none := by
  cases value with
  | nan => rfl
  | infinite negative => cases negative <;> rfl
  | finite negative size => cases special

/-- The text of a finite double is a numeral. -/
theorem read?_yaml_finite (negative : Bool) (size : Size) :
    Decimal.read? (yaml.text (.finite negative size)) ≠ none := by
  obtain ⟨coefficient, exponent, read, -⟩ := reads_text yaml_writesNumerals negative size
  simp [read]

/-- Doubles with the same YAML text are the same. -/
theorem yaml_text_injective {left right : Binary64} (same : yaml.text left = yaml.text right) :
    left = right := by
  have finiteOrNot {value other : Binary64} (finite : value.isFinite = true)
      (special : other.isFinite = false) : yaml.text value ≠ yaml.text other := by
    intro equal
    cases value with
    | nan => cases finite
    | infinite negative => cases finite
    | finite negative size =>
        exact read?_yaml_finite negative size (equal ▸ read?_yaml_of_not_finite special)
  cases left with
  | nan =>
      cases right with
      | nan => rfl
      | infinite negative => cases negative <;> exact absurd same (by decide)
      | finite negative size => exact absurd same.symm (finiteOrNot rfl rfl)
  | infinite leftSign =>
      cases right with
      | nan => cases leftSign <;> exact absurd same (by decide)
      | infinite rightSign =>
          cases leftSign <;> cases rightSign <;> first | rfl | exact absurd same (by decide)
      | finite negative size => exact absurd same.symm (finiteOrNot rfl rfl)
  | finite leftSign left =>
      cases right with
      | nan => exact absurd same (finiteOrNot rfl rfl)
      | infinite negative => exact absurd same (finiteOrNot rfl rfl)
      | finite rightSign right =>
          obtain ⟨sign, size⟩ := text_finite_injective yaml_writesNumerals same
          rw [sign, size]

/-- The text of a finite double has a point or an exponent if whole numbers end in a fraction. -/
theorem mark_mem_finite_text {style : FloatStyle} (ending : '.' ∈ style.wholeEnding)
    (negative : Bool) (size : Size) :
    '.' ∈ style.text (.finite negative size) ∨ 'e' ∈ style.text (.finite negative size) := by
  have written : style.text (.finite negative size) = signText negative ++ style.sizeText size :=
    rfl
  rw [written, sizeText]
  obtain ⟨coefficient, exponent⟩ := Shortest.decimal size
  dsimp only
  split
  · left
    rw [positionalText]
    split
    · simp
    · split <;> simp [ending]
  · right
    simp [exponentText]

/-- The YAML text of a double has a point or an exponent. -/
theorem mark_mem_yaml_text (value : Binary64) :
    '.' ∈ yaml.text value ∨ 'e' ∈ yaml.text value := by
  cases value with
  | nan => exact .inl (by decide)
  | infinite negative => cases negative <;> exact .inl (by decide)
  | finite negative size => exact mark_mem_finite_text (by decide) negative size

end FloatStyle

/-- The text of an integer consists of digits and a minus sign. -/
theorem isDigit_or_minus_of_mem_integerText {value : Int} {mark : Char}
    (member : mark ∈ integerText value) : mark.isDigit = true ∨ mark = '-' := by
  cases value with
  | ofNat value => exact .inl (isDigit_of_mem_naturalDigits member)
  | negSucc value =>
      rcases List.mem_cons.mp member with rfl | digits
      · exact .inr rfl
      · exact .inl (isDigit_of_mem_naturalDigits digits)

/-- A text whose characters all pass a test. -/
abbrev SpelledWith (allowed : Char → Bool) (text : List Char) : Prop :=
  ∀ c ∈ text, allowed c = true

/-- Whether a test lets pass the characters that a style writes finite doubles with. -/
structure FloatStyle.Spells (style : FloatStyle) (allowed : Char → Bool) : Prop where
  digit : ∀ c, c.isDigit = true → allowed c = true
  minus : allowed '-' = true
  point : allowed '.' = true
  mark : allowed 'e' = true
  wholeEnding : SpelledWith allowed style.wholeEnding
  exponentPlus : SpelledWith allowed style.exponentPlus

namespace FloatStyle.Spells

variable {style : FloatStyle} {allowed : Char → Bool} {digits : List Char}

/-- Digits pass. -/
theorem allDigits (spells : style.Spells allowed) (allDigits : AllDigits digits) :
    SpelledWith allowed digits :=
  fun c member => spells.digit c (allDigits c member)

/-- The texts of integers pass. -/
theorem integerText (spells : style.Spells allowed) (value : Int) :
    SpelledWith allowed (integerText value) := by
  intro c member
  rcases isDigit_or_minus_of_mem_integerText member with digit | rfl
  · exact spells.digit c digit
  · exact spells.minus

/-- Digits with a point among or around them pass. -/
theorem positionalText (spells : style.Spells allowed) (allDigits : AllDigits digits)
    (point : Int) : SpelledWith allowed (style.positionalText digits point) := by
  have zeros (count : Nat) := spells.allDigits (allDigits_zeros count)
  have written := spells.allDigits allDigits
  rw [FloatStyle.positionalText]
  split
  · have leading : SpelledWith allowed ['0', '.'] :=
      List.forall_mem_cons.mpr ⟨spells.digit '0' rfl, List.forall_mem_singleton.mpr spells.point⟩
    exact List.forall_mem_append.mpr ⟨List.forall_mem_append.mpr ⟨leading, zeros _⟩, written⟩
  · split
    · exact List.forall_mem_append.mpr
        ⟨List.forall_mem_append.mpr ⟨written, zeros _⟩, spells.wholeEnding⟩
    · refine List.forall_mem_append.mpr ⟨?_, List.forall_mem_cons.mpr ⟨spells.point, ?_⟩⟩
      · exact fun c member => written c (List.mem_of_mem_take member)
      · exact fun c member => written c (List.mem_of_mem_drop member)

/-- Digits with an exponent pass. -/
theorem exponentText (spells : style.Spells allowed) (allDigits : AllDigits digits)
    (point : Int) : SpelledWith allowed (style.exponentText digits point) := by
  have written := spells.allDigits allDigits
  have mark : SpelledWith allowed ('e' :: if 0 ≤ point - 1 then style.exponentPlus else []) := by
    refine List.forall_mem_cons.mpr ⟨spells.mark, ?_⟩
    split
    · exact spells.exponentPlus
    · exact List.forall_mem_nil _
  have parts (mantissa : List Char) (mantissaWritten : SpelledWith allowed mantissa) :
      SpelledWith allowed (mantissa ++ ('e' :: if 0 ≤ point - 1 then style.exponentPlus else []) ++
        FieldGuide.integerText (point - 1)) :=
    List.forall_mem_append.mpr
      ⟨List.forall_mem_append.mpr ⟨mantissaWritten, mark⟩, spells.integerText (point - 1)⟩
  rcases digits with _ | ⟨first, _ | ⟨second, rest⟩⟩
  · exact parts [] written
  · exact parts [first] written
  · obtain ⟨firstWritten, restWritten⟩ := List.forall_mem_cons.mp written
    have pointed : SpelledWith allowed (first :: '.' :: second :: rest) :=
      List.forall_mem_cons.mpr ⟨firstWritten, List.forall_mem_cons.mpr ⟨spells.point, restWritten⟩⟩
    exact parts _ pointed

/-- The texts of finite doubles pass. -/
theorem finite (spells : style.Spells allowed) (negative : Bool) (size : Size) :
    SpelledWith allowed (style.text (.finite negative size)) := by
  have sign : SpelledWith allowed (signText negative) := by
    cases negative with
    | false => exact List.forall_mem_nil _
    | true => exact List.forall_mem_singleton.mpr spells.minus
  have written : SpelledWith allowed (style.sizeText size) := by
    rw [sizeText]
    obtain ⟨coefficient, exponent⟩ := Shortest.decimal size
    dsimp only
    split
    · exact spells.positionalText (allDigits_naturalDigits _) _
    · exact spells.exponentText (allDigits_naturalDigits _) _
  exact List.forall_mem_append.mpr ⟨sign, written⟩

end FloatStyle.Spells

/-- The characters that numbers are written with: letters, digits, minus signs and
points. -/
def isNumberChar (c : Char) : Bool := c.isAlphanum || c = '-' || c = '.'

/-- Numbers pass as numbers in YAML. -/
theorem FloatStyle.yaml_spells : yaml.Spells isNumberChar where
  digit c digit := by simp [isNumberChar, Char.isAlphanum, digit]
  minus := rfl
  point := rfl
  mark := rfl
  wholeEnding := List.all_eq_true.mp rfl
  exponentPlus := List.forall_mem_nil _

/-- A text that is written with the characters of numbers. -/
abbrev NumberChars (text : List Char) : Prop := ∀ c ∈ text, isNumberChar c = true

/-- Doubles are written with the characters of numbers. -/
theorem FloatStyle.numberChars_yaml_text (value : Binary64) : NumberChars (yaml.text value) := by
  cases value with
  | nan => exact List.all_eq_true.mp rfl
  | infinite negative => cases negative <;> exact List.all_eq_true.mp rfl
  | finite negative size => exact yaml_spells.finite negative size

namespace Number

/-- Numbers are written with the characters of numbers. -/
theorem numberChars_yamlText (number : Number) : NumberChars number.yamlText := by
  cases number with
  | integer value fits => exact FloatStyle.yaml_spells.integerText value
  | float value => exact FloatStyle.numberChars_yaml_text value

/-- Numbers are written with at least one character. -/
theorem yamlText_ne_nil (number : Number) : number.yamlText ≠ [] := by
  cases number with
  | integer value fits =>
      cases value with
      | ofNat value => exact naturalDigits_ne_nil value
      | negSucc value => exact List.cons_ne_nil _ _
  | float value =>
      rcases FloatStyle.mark_mem_yaml_text value with point | exponent
      · exact List.ne_nil_of_mem point
      · exact List.ne_nil_of_mem exponent

/-- No integer has the text of a double. -/
theorem integerText_ne_yaml_text (value : Int) (float : Binary64) :
    integerText value ≠ FloatStyle.yaml.text float := by
  intro same
  rcases FloatStyle.mark_mem_yaml_text float with point | exponent
  · exact absurd (isDigit_or_minus_of_mem_integerText (same ▸ point)) (by decide)
  · exact absurd (isDigit_or_minus_of_mem_integerText (same ▸ exponent)) (by decide)

/-- Numbers with the same YAML text are the same. -/
theorem yamlText_injective {left right : Number} (same : left.yamlText = right.yamlText) :
    left = right := by
  cases left with
  | integer left leftFits =>
      cases right with
      | integer right rightFits =>
          have equal : left = right := integerText_injective same
          subst equal
          rfl
      | float right => exact absurd same (integerText_ne_yaml_text left right)
  | float left =>
      cases right with
      | integer right rightFits => exact absurd same.symm (integerText_ne_yaml_text right left)
      | float right => rw [FloatStyle.yaml_text_injective same]

/-- No number has the text of a boolean. -/
theorem yamlText_ne_boolText (number : Number) (value : Bool) :
    number.yamlText ≠ Json.boolText value := by
  intro same
  have notNumeral : Decimal.read? (Json.boolText value) = none := by cases value <;> rfl
  cases number with
  | integer integer fits =>
      have letter : 'e' ∈ integerText integer := by
        rw [show integerText integer = Json.boolText value from same]
        cases value <;> decide
      exact absurd (isDigit_or_minus_of_mem_integerText letter) (by decide)
  | float float =>
      have written : FloatStyle.yaml.text float = Json.boolText value := same
      cases float with
      | nan => cases value <;> exact absurd written (by decide)
      | infinite negative => cases negative <;> cases value <;> exact absurd written (by decide)
      | finite negative size =>
          exact FloatStyle.read?_yaml_finite negative size (written ▸ notNumeral)

end Number

end FieldGuide
