import FieldGuide.Json.Reader
import FieldGuide.Proofs.Number.Rounding
import FieldGuide.Proofs.Number.Text

/-!
# JSON numerals read back

The JSON text of every number but the infinities and not-a-number is a numeral that is read as
the number: an integer as the integer, and a double as the double, because the shortest decimal
of a double rounds to it. The digits of the numeral stand as JSON has them, and no numeral is read
as an infinity.
-/

namespace FieldGuide

namespace Decimal

/-- A character that is no sign comes after the sign. -/
theorem mem_splitSign {text : List Char} {c : Char} (member : c ∈ text)
    (notMinus : c ≠ '-') (notPlus : c ≠ '+') : c ∈ (splitSign text).2 := by
  unfold splitSign
  split
  · exact (List.mem_cons.mp member).resolve_left notMinus
  · exact (List.mem_cons.mp member).resolve_left notPlus
  · exact member

/-- Whether no zero stands before other digits. -/
def IsLeading (digits : List Char) : Prop :=
  digits.length = 1 ∨ ∃ first ∈ digits.head?, first ≠ '0'

/-- The digits of a number have no zero before others. -/
theorem isLeading_naturalDigits (value : Nat) : IsLeading (naturalDigits value) := by
  rcases Nat.eq_zero_or_pos value with rfl | positive
  · exact .inl rfl
  · obtain ⟨first, rest, split⟩ := List.exists_cons_of_ne_nil (naturalDigits_ne_nil value)
    have notZero := head?_naturalDigits positive
    rw [split] at notZero ⊢
    exact .inr ⟨first, rfl, fun zero => notZero (congrArg some zero)⟩

/-- Digits start with a digit. -/
theorem exists_digit_head {digits : List Char} (filled : digits ≠ [])
    (allDigits : AllDigits digits) : ∃ first ∈ digits.head?, first.isDigit = true := by
  obtain ⟨first, rest, rfl⟩ := List.exists_cons_of_ne_nil filled
  exact ⟨first, rfl, allDigits first List.mem_cons_self⟩

/-- A numeral has its digits as JSON has them when no zero stands before others and a point is
followed by one. -/
theorem hasStrictDigits_append (negative : Bool) {whole rest : List Char}
    (allDigits : AllDigits whole) (leading : IsLeading whole) (stops : Stops rest)
    (pointed : rest.head? = some '.' → ∃ first ∈ rest.tail.head?, first.isDigit = true) :
    hasStrictDigits (signText negative ++ (whole ++ rest)) = true := by
  have filled : whole ≠ [] := by
    rintro rfl
    rcases leading with one | ⟨_, ⟨⟩, -⟩
    cases one
  have unsigned : (if (signText negative ++ (whole ++ rest)).head? = some '-' then
      (signText negative ++ (whole ++ rest)).tail else signText negative ++ (whole ++ rest)) =
        whole ++ rest := by
    cases negative with
    | true => rfl
    | false =>
        obtain ⟨first, others, rfl⟩ := List.exists_cons_of_ne_nil filled
        refine if_neg fun minus => ?_
        obtain rfl := Option.some.inj minus
        exact absurd (allDigits '-' List.mem_cons_self) (by decide)
  have startsWell : (whole.length = 1 || whole.head?.any (· != '0')) = true := by
    rcases leading with one | ⟨first, head, notZero⟩
    · simp [one]
    · simp [Option.mem_def.mp head, notZero]
  have goesOnWell : (rest.head? != some '.' || rest.tail.head?.any Char.isDigit) = true := by
    by_cases point : rest.head? = some '.'
    · obtain ⟨first, head, digit⟩ := pointed point
      simp [Option.mem_def.mp head, digit]
    · simp [point]
  rw [hasStrictDigits, unsigned, takeWhile_digits allDigits stops, dropWhile_digits allDigits stops,
    startsWell, goesOnWell]
  rfl

/-- A numeral with a point has its digits as JSON has them when some follow the point. -/
theorem hasStrictDigits_pointed (negative : Bool) {whole fraction : List Char}
    (rest : List Char) (wholeDigits : AllDigits whole) (leading : IsLeading whole)
    (filled : fraction ≠ []) (fractionDigits : AllDigits fraction) :
    hasStrictDigits (signText negative ++ (whole ++ '.' :: (fraction ++ rest))) = true := by
  refine hasStrictDigits_append negative wholeDigits leading (by simp [Stops]) fun _ => ?_
  obtain ⟨first, head, digit⟩ := exists_digit_head filled fractionDigits
  exact ⟨first, List.head?_append_of_ne_nil _ filled ▸ head, digit⟩

end Decimal

namespace FloatStyle

section Digits

variable {style : FloatStyle} {digits : List Char}

open Decimal (IsLeading hasStrictDigits hasStrictDigits_append hasStrictDigits_pointed)

/-- Digits with the point among or around them stand as JSON has them, zero without others. -/
theorem hasStrictDigits_positionalText (numerals : style.WritesNumerals) (negative : Bool)
    (allDigits : AllDigits digits) (exponent : Int)
    (leading : digits = ['0'] ∧ exponent = 0 ∨ ∃ first ∈ digits.head?, first ≠ '0') :
    hasStrictDigits
      (signText negative ++ style.positionalText digits (exponent + digits.length)) = true := by
  have filled : digits ≠ [] := by
    rintro rfl
    rcases leading with ⟨⟨⟩, -⟩ | ⟨_, ⟨⟩, -⟩
  rw [positionalText]
  -- The point stands before all digits, behind all of them, or among them.
  split
  · have fraction := List.forall_mem_append.mpr
      ⟨allDigits_zeros (-(exponent + digits.length)).toNat, allDigits⟩
    have zero : AllDigits ['0'] := allDigits_singleton rfl
    have strict := hasStrictDigits_pointed negative [] zero (.inl rfl)
      (List.append_ne_nil_of_right_ne_nil _ filled) fraction
    simpa using strict
  · split
    · have ending : Decimal.Stops style.wholeEnding ∧ (style.wholeEnding.head? = some '.' →
          ∃ first ∈ style.wholeEnding.tail.head?, first.isDigit = true) := by
        rcases numerals.wholeEnding with bare | fraction
        · rw [bare]
          exact ⟨Decimal.stops_nil, fun pointed => absurd pointed (by decide)⟩
        · rw [fraction]
          exact ⟨by simp [Decimal.Stops], fun _ => ⟨'0', rfl, rfl⟩⟩
      refine hasStrictDigits_append negative
        (List.forall_mem_append.mpr ⟨allDigits, allDigits_zeros _⟩) ?_ ending.1 ending.2
      rcases leading with ⟨rfl, rfl⟩ | ⟨first, head, notZero⟩
      · exact .inl rfl
      · exact .inr ⟨first, List.head?_append_of_ne_nil _ filled ▸ head, notZero⟩
    · next before behind =>
        have inside : 0 < (exponent + digits.length).toNat := by omega
        have others : digits.drop (exponent + digits.length).toNat ≠ [] := by
          rw [Ne, List.drop_eq_nil_iff]
          omega
        have leads : IsLeading (digits.take (exponent + digits.length).toNat) := by
          rcases leading with ⟨rfl, rfl⟩ | ⟨first, head, notZero⟩
          · exact absurd (Int.le_of_eq (Int.zero_add _).symm) behind
          · refine .inr ⟨first, ?_, notZero⟩
            rwa [List.head?_take, if_neg (Nat.ne_of_gt inside)]
        have strict := hasStrictDigits_pointed negative []
          (fun digit member => allDigits digit (List.mem_of_mem_take member)) leads others
          (fun digit member => allDigits digit (List.mem_of_mem_drop member))
        simpa using strict

/-- Digits with an exponent stand as JSON has them: one of them is before the point. -/
theorem hasStrictDigits_exponentText (negative : Bool) (filled : digits ≠ [])
    (allDigits : AllDigits digits) (point : Int) :
    hasStrictDigits (signText negative ++ style.exponentText digits point) = true := by
  have stops (rest : List Char) : Decimal.Stops ('e' :: rest) := by simp [Decimal.Stops]
  rcases digits with - | ⟨first, - | ⟨second, rest⟩⟩
  · exact absurd rfl filled
  · have strict := hasStrictDigits_append negative allDigits (.inl rfl)
      (stops ((if 0 ≤ point - 1 then style.exponentPlus else []) ++ integerText (point - 1)))
      (by simp)
    simpa [exponentText] using strict
  · obtain ⟨firstDigit, otherDigits⟩ := List.forall_mem_cons.mp allDigits
    have strict := hasStrictDigits_pointed negative
      ('e' :: ((if 0 ≤ point - 1 then style.exponentPlus else []) ++ integerText (point - 1)))
      (allDigits_singleton firstDigit) (.inl rfl) (List.cons_ne_nil second rest) otherDigits
    simpa [exponentText] using strict

end Digits

/-- A shortest decimal without a coefficient has no exponent. -/
theorem exponent_eq_zero {size : Size} (zero : (Shortest.decimal size).1 = 0) :
    (Shortest.decimal size).2 = 0 := by
  have same : size = .zero := by
    refine Shortest.size_eq_of_decimalValue ?_
    have ofZero : Shortest.decimal .zero = (0, 0) := rfl
    rw [zero, ofZero]
    simp [Shortest.decimalValue]
  rw [same]
  rfl

/-- The text of a finite double has its digits as JSON has them. -/
theorem hasStrictDigits_text {style : FloatStyle} (numerals : style.WritesNumerals)
    (negative : Bool) (size : Size) :
    Decimal.hasStrictDigits (style.text (.finite negative size)) = true := by
  have written : style.text (.finite negative size) =
      signText negative ++ style.sizeText size := rfl
  obtain ⟨coefficient, exponent, shortest⟩ :
      ∃ coefficient exponent, Shortest.decimal size = (coefficient, exponent) := ⟨_, _, rfl⟩
  have noExponent := @exponent_eq_zero size
  rw [shortest] at noExponent
  rw [written, sizeText, shortest]
  dsimp only at noExponent ⊢
  have allDigits := allDigits_naturalDigits coefficient
  split
  · refine hasStrictDigits_positionalText numerals negative allDigits exponent ?_
    rcases Nat.eq_zero_or_pos coefficient with zero | positive
    · exact .inl ⟨zero ▸ rfl, noExponent zero⟩
    · obtain ⟨first, rest, split⟩ := List.exists_cons_of_ne_nil (naturalDigits_ne_nil coefficient)
      have notZero := head?_naturalDigits positive
      rw [split] at notZero ⊢
      exact .inr ⟨first, rfl, fun zero => notZero (congrArg some zero)⟩
  · exact hasStrictDigits_exponentText negative (naturalDigits_ne_nil coefficient) allDigits _

/-- JSON text is made of numerals. -/
theorem json_writesNumerals : json.WritesNumerals := ⟨.inr rfl, .inr rfl⟩

/-- JSON text is made of the characters of JSON numerals. -/
theorem json_spells : json.Spells Json.Reader.isNumeralChar where
  digit c digit := by simp [Json.Reader.isNumeralChar, digit]
  minus := rfl
  point := rfl
  mark := rfl
  wholeEnding := List.all_eq_true.mp rfl
  exponentPlus := List.all_eq_true.mp rfl

end FloatStyle

namespace Number

/-- Whether the value is a number other than the infinities. -/
def isFinite : Number → Bool
  | .integer _ _ => true
  | .float value => value.isFinite

/-- Whether all numbers of a list are other than the infinities and not-a-number. -/
abbrev AllFinite (numbers : List Number) : Prop := ∀ number ∈ numbers, number.isFinite = true

/-- A whole numeral other than negative zero is read as the integer it writes, if that is in
range. -/
theorem ofJsonNumeral?_whole {text : List Char} {decimal : Decimal} {value : Int}
    (strict : Decimal.hasStrictDigits text = true) (read : Decimal.read? text = some decimal)
    (whole : (Decimal.splitSign text).2.all Char.isDigit = true)
    (notNegativeZero : (decimal.negative && decimal.coefficient = 0) = false)
    (written : (if decimal.negative then -(decimal.coefficient : Int) else decimal.coefficient) =
      value) (fits : FitsNumber value) :
    ofJsonNumeral? text = some (.integer value fits) := by
  have positive : decimal.negative = true → decimal.coefficient ≠ 0 := by
    simpa using notNegativeZero
  simpa [ofJsonNumeral?, strict, read, whole, written, ofInt?, fits] using
    fun minus zero => absurd zero (positive minus)

/-- The digits of a number with a sign are read as the number with the sign. -/
theorem read?_signText (negative : Bool) (magnitude : Nat) :
    Decimal.read? (signText negative ++ naturalDigits magnitude) =
        some ⟨negative, magnitude, 0⟩ ∧
      Decimal.hasStrictDigits (signText negative ++ naturalDigits magnitude) = true ∧
      (Decimal.splitSign (signText negative ++ naturalDigits magnitude)).2.all Char.isDigit =
        true := by
  have filled := naturalDigits_ne_nil magnitude
  have digits := allDigits_naturalDigits magnitude
  have read := Decimal.read?_whole negative filled digits Decimal.stops_nil nofun rfl
  have strict := Decimal.hasStrictDigits_append negative digits
    (Decimal.isLeading_naturalDigits magnitude) Decimal.stops_nil nofun
  rw [List.append_nil] at read strict
  rw [digitsValue_naturalDigits] at read
  refine ⟨read, strict, ?_⟩
  obtain ⟨first, rest, split⟩ := List.exists_cons_of_ne_nil filled
  rw [split] at digits ⊢
  rw [Decimal.splitSign_signText negative (digits first List.mem_cons_self)]
  exact List.all_eq_true.mpr digits

/-- An integer is read as the integer. -/
theorem ofJsonNumeral?_integerText (value : Int) (fits : FitsNumber value) :
    ofJsonNumeral? (integerText value) = some (.integer value fits) := by
  cases value with
  | ofNat magnitude =>
      obtain ⟨read, strict, whole⟩ := read?_signText false magnitude
      exact ofJsonNumeral?_whole strict read whole rfl rfl fits
  | negSucc magnitude =>
      obtain ⟨read, strict, whole⟩ := read?_signText true (magnitude + 1)
      exact ofJsonNumeral?_whole strict read whole (by simp) rfl fits

/-- A finite double is read as the double. -/
theorem ofJsonNumeral?_finite (negative : Bool) (size : Size) :
    ofJsonNumeral? (FloatStyle.json.text (.finite negative size)) =
      some (.float (.finite negative size)) := by
  have strict := FloatStyle.hasStrictDigits_text FloatStyle.json_writesNumerals negative size
  obtain ⟨coefficient, exponent, read, value⟩ :=
    FloatStyle.reads_text FloatStyle.json_writesNumerals negative size
  have notWhole :
      (Decimal.splitSign (FloatStyle.json.text (.finite negative size))).2.all Char.isDigit =
        false := by
    rw [List.all_eq_false]
    have fraction : '.' ∈ FloatStyle.json.wholeEnding := by decide
    rcases FloatStyle.mark_mem_finite_text fraction negative size with point | mark
    · exact ⟨'.', Decimal.mem_splitSign point (by decide) (by decide), by decide⟩
    · exact ⟨'e', Decimal.mem_splitSign mark (by decide) (by decide), by decide⟩
  have rounded : (⟨negative, coefficient, exponent⟩ : Decimal).toBinary64 =
      .finite negative size :=
    Decimal.toBinary64_eq_finite value
  simp [ofJsonNumeral?, strict, read, notWhole, rounded, ofFinite?, Binary64.isFinite]

/-- A number is read from its JSON text unless it is an infinity or not-a-number. -/
theorem ofJsonNumeral?_jsonText {number : Number} (finite : number.isFinite = true) :
    ofJsonNumeral? number.jsonText = some number := by
  cases number with
  | integer value fits => exact ofJsonNumeral?_integerText value fits
  | float value =>
      cases value with
      | finite negative size => exact ofJsonNumeral?_finite negative size
      | nan | infinite => cases finite

/-- A double that is a document number is neither an infinity nor not-a-number. -/
theorem isFinite_of_ofFinite? {value : Binary64} {number : Number}
    (taken : ofFinite? value = some number) : number.isFinite = true := by
  rw [ofFinite?] at taken
  split at taken
  · next finite =>
      obtain rfl := Option.some.inj taken
      exact finite
  · cases taken

/-- An integer that is a document number is no infinity. -/
theorem isFinite_of_ofInt? {value : Int} {number : Number}
    (taken : ofInt? value = some number) : number.isFinite = true := by
  rw [ofInt?] at taken
  split at taken
  · obtain rfl := Option.some.inj taken
    rfl
  · cases taken

/-- A number that is read is neither an infinity nor not-a-number. -/
theorem isFinite_of_ofJsonNumeral? {text : List Char} {number : Number}
    (read : ofJsonNumeral? text = some number) : number.isFinite = true := by
  obtain ⟨_, -, read⟩ := Option.bind_eq_some_iff.mp read
  obtain ⟨decimal, -, read⟩ := Option.bind_eq_some_iff.mp read
  dsimp only at read
  split at read
  · rcases Option.or_eq_some_iff.mp read with whole | ⟨-, nearest⟩
    · exact isFinite_of_ofInt? whole
    · exact isFinite_of_ofFinite? nearest
  · exact isFinite_of_ofFinite? read

/-- Numerals are refused that JSON has not, or that no double is near to. -/
example :
    ["01", "+1", "1.", ".5", "1e999"].map (ofJsonNumeral? ·.toList) =
      List.replicate 5 none := by
  decide

/-- The JSON text of a number is made of the characters of numerals. -/
theorem jsonText_spelled {number : Number} (finite : number.isFinite = true) :
    SpelledWith Json.Reader.isNumeralChar number.jsonText := by
  cases number with
  | integer value fits => exact FloatStyle.json_spells.integerText value
  | float value =>
      cases value with
      | finite negative size => exact FloatStyle.json_spells.finite negative size
      | nan | infinite => cases finite

end Number

end FieldGuide
