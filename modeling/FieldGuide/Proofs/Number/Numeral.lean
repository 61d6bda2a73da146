import FieldGuide.Number.Style
import FieldGuide.Proofs.Number.Digits
import FieldGuide.Proofs.Number.Shortest

/-!
# Printed numerals read back

Every text that a format writes for a finite double reads back as a decimal with the
sign of the double and the value of its shortest decimal, whether the text is positional
or has an exponent. The other texts of doubles are no numerals.
-/

namespace FieldGuide

/-- The minus sign of a negative number. -/
def signText (negative : Bool) : List Char := if negative then ['-'] else []

namespace Decimal

/-- A sign before a digit is split off. -/
theorem splitSign_signText (negative : Bool) {digit : Char} (isDigit : digit.isDigit = true)
    (rest : List Char) :
    splitSign (signText negative ++ digit :: rest) = (negative, digit :: rest) := by
  cases negative with
  | true => rfl
  | false =>
      have notMinus : digit ≠ '-' := by
        rintro rfl
        exact absurd isDigit (by decide)
      have notPlus : digit ≠ '+' := by
        rintro rfl
        exact absurd isDigit (by decide)
      simp [splitSign, signText, notMinus, notPlus]

/-- What follows the digits of a numeral does not start with a digit. -/
def Stops (rest : List Char) : Prop := ∀ first ∈ rest.head?, first.isDigit = false

/-- Nothing follows the digits at the end of a numeral. -/
theorem stops_nil : Stops [] := by simp [Stops]

/-- Digits are read up to where they stop. -/
theorem takeWhile_digits {digits rest : List Char} (allDigits : AllDigits digits)
    (stops : Stops rest) : (digits ++ rest).takeWhile Char.isDigit = digits := by
  rw [List.takeWhile_append_of_pos allDigits]
  cases rest with
  | nil => simp
  | cons first rest =>
      rw [List.takeWhile_cons_of_neg (by simp [stops first (by simp)]), List.append_nil]

/-- What is left after the digits is what follows them. -/
theorem dropWhile_digits {digits rest : List Char} (allDigits : AllDigits digits)
    (stops : Stops rest) : (digits ++ rest).dropWhile Char.isDigit = rest := by
  rw [List.dropWhile_append_of_pos allDigits]
  cases rest with
  | nil => rfl
  | cons first rest => rw [List.dropWhile_cons_of_neg (by simp [stops first (by simp)])]

/-- A numeral with a point reads as its digits, shifted by those after the point. -/
theorem read?_pointed (negative : Bool) {whole : List Char} (fraction : List Char)
    {rest : List Char} {exponent : Int} (filled : whole ≠ []) (wholeDigits : AllDigits whole)
    (fractionDigits : AllDigits fraction) (stops : Stops rest)
    (scaled : readExponent? rest = some exponent) :
    read? (signText negative ++ (whole ++ '.' :: (fraction ++ rest))) =
      some ⟨negative, digitsValue (whole ++ fraction), exponent - fraction.length⟩ := by
  have pointStops : Stops ('.' :: (fraction ++ rest)) := by simp [Stops]
  obtain ⟨digit, digits, rfl⟩ := List.exists_cons_of_ne_nil filled
  have split := splitSign_signText negative (wholeDigits digit List.mem_cons_self)
    (digits ++ '.' :: (fraction ++ rest))
  rw [← List.cons_append] at split
  simp only [read?, split, takeWhile_digits wholeDigits pointStops,
    dropWhile_digits wholeDigits pointStops, takeWhile_digits fractionDigits stops,
    dropWhile_digits fractionDigits stops, scaled]
  simp

/-- A numeral without a point reads as its digits. -/
theorem read?_whole (negative : Bool) {whole rest : List Char} {exponent : Int}
    (filled : whole ≠ []) (wholeDigits : AllDigits whole) (stops : Stops rest)
    (noPoint : rest.head? ≠ some '.') (scaled : readExponent? rest = some exponent) :
    read? (signText negative ++ (whole ++ rest)) =
      some ⟨negative, digitsValue whole, exponent⟩ := by
  obtain ⟨digit, digits, rfl⟩ := List.exists_cons_of_ne_nil filled
  have split := splitSign_signText negative (wholeDigits digit List.mem_cons_self)
    (digits ++ rest)
  rw [← List.cons_append] at split
  simp only [read?, split, takeWhile_digits wholeDigits stops, dropWhile_digits wholeDigits stops]
  cases rest with
  | nil => simp [scaled]
  | cons first rest =>
      have notPoint : first ≠ '.' := by simpa using noPoint
      simp [notPoint, scaled]

/-- An exponent reads as its digits with its sign. -/
theorem readExponent?_digits {text : List Char} {negative : Bool} {value : Nat}
    (split : splitSign text = (negative, naturalDigits value)) :
    readExponent? ('e' :: text) = some (if negative then -(value : Int) else value) := by
  simp [readExponent?, split, naturalDigits_ne_nil, digitsValue_naturalDigits,
    List.all_eq_true.mpr (allDigits_naturalDigits value)]

/-- An exponent reads as the integer it was written for. -/
theorem readExponent?_integerText {plus : List Char} (sign : plus = [] ∨ plus = ['+'])
    (power : Int) :
    readExponent? ('e' :: ((if 0 ≤ power then plus else []) ++ integerText power)) =
      some power := by
  cases power with
  | ofNat value =>
      have natural : 0 ≤ Int.ofNat value := Int.natCast_nonneg value
      rw [if_pos natural]
      have unsigned : splitSign (plus ++ naturalDigits value) = (false, naturalDigits value) := by
        rcases sign with rfl | rfl
        · obtain ⟨digit, rest, split⟩ := List.exists_cons_of_ne_nil (naturalDigits_ne_nil value)
          rw [split]
          exact splitSign_signText false
            (allDigits_naturalDigits value digit (split ▸ List.mem_cons_self)) rest
        · rfl
      exact readExponent?_digits unsigned
  | negSucc value =>
      rw [if_neg (Int.not_le.mpr (Int.negSucc_lt_zero value)), List.nil_append]
      have signed : splitSign (integerText (.negSucc value)) = (true, naturalDigits (value + 1)) :=
        rfl
      exact readExponent?_digits signed

end Decimal

namespace FloatStyle

open Shortest

/-- The styles whose finite texts are numerals: whole numbers end in nothing or in a zero
fraction, and a positive exponent has no sign or a plus. -/
structure WritesNumerals (style : FloatStyle) : Prop where
  wholeEnding : style.wholeEnding = [] ∨ style.wholeEnding = ['.', '0']
  exponentPlus : style.exponentPlus = [] ∨ style.exponentPlus = ['+']

/-- YAML text is made of numerals. -/
theorem yaml_writesNumerals : yaml.WritesNumerals := ⟨.inr rfl, .inl rfl⟩

/-- A text that reads as a decimal with one sign and value. -/
def Reads (text : List Char) (negative : Bool) (value : ℚ) : Prop :=
  ∃ coefficient exponent, Decimal.read? text = some ⟨negative, coefficient, exponent⟩ ∧
    decimalValue coefficient exponent = value

/-- Zeros appended to a coefficient are exponents. -/
theorem decimalValue_shift (coefficient places : Nat) (exponent : Int) :
    decimalValue (10 ^ places * coefficient) exponent =
      decimalValue coefficient (exponent + places) := by
  simp only [decimalValue]
  rw [zpow_add₀ (by decide), zpow_natCast]
  push_cast
  ring

section Digits

variable {style : FloatStyle} {digits : List Char}

/-- Digits around a point read as all of them, shifted by those after the point. -/
theorem reads_pointed (negative : Bool) (whole fraction : List Char) (filled : whole ≠ [])
    (wholeDigits : AllDigits whole) (fractionDigits : AllDigits fraction) :
    Reads (signText negative ++ (whole ++ '.' :: fraction)) negative
      (decimalValue (digitsValue (whole ++ fraction)) (-fraction.length)) := by
  have read := Decimal.read?_pointed negative fraction filled wholeDigits fractionDigits
    Decimal.stops_nil rfl
  rw [List.append_nil, Int.zero_sub] at read
  exact ⟨_, _, read, rfl⟩

/-- Digits alone read as themselves. -/
theorem reads_whole (negative : Bool) (filled : digits ≠ []) (allDigits : AllDigits digits) :
    Reads (signText negative ++ digits) negative (decimalValue (digitsValue digits) 0) := by
  have read := Decimal.read?_whole negative filled allDigits Decimal.stops_nil (by simp) rfl
  rw [List.append_nil] at read
  exact ⟨_, _, read, rfl⟩

/-- Digits followed by zeros and the ending of whole numbers read as a whole number. -/
theorem reads_wholeEnding (numerals : style.WritesNumerals) (negative : Bool)
    (filled : digits ≠ []) (allDigits : AllDigits digits) (count : Nat) :
    Reads (signText negative ++ (digits ++ List.replicate count '0' ++ style.wholeEnding)) negative
      (decimalValue (digitsValue digits) count) := by
  have padded : digits ++ List.replicate count '0' ≠ [] := by simp [filled]
  have paddedDigits := List.forall_mem_append.mpr ⟨allDigits, allDigits_zeros count⟩
  have shifted : digitsValue (digits ++ List.replicate count '0') =
      10 ^ count * digitsValue digits := by
    rw [digitsValue_append, digitsValue_zeros, List.length_replicate, Nat.add_zero]
  rcases numerals.wholeEnding with ending | ending
  · have reads := reads_whole negative padded paddedDigits
    rw [shifted, decimalValue_shift, Int.zero_add] at reads
    rw [ending, List.append_nil]
    exact reads
  · have reads := reads_pointed negative _ ['0'] padded paddedDigits (allDigits_singleton rfl)
    have fraction : digitsValue (digits ++ List.replicate count '0' ++ ['0']) =
        10 ^ (count + 1) * digitsValue digits := by
      rw [digitsValue_append, shifted, pow_succ']
      exact (Nat.mul_assoc ..).symm
    have places : -((['0'] : List Char).length : Int) + (count + 1 : Nat) = count := by
      simp
    rw [fraction, decimalValue_shift, places] at reads
    rw [ending]
    exact reads

/-- Digits with the point among or around them read as a decimal with their value. -/
theorem reads_positionalText (numerals : style.WritesNumerals) (negative : Bool)
    (filled : digits ≠ []) (allDigits : AllDigits digits) (exponent : Int) :
    Reads (signText negative ++ style.positionalText digits (exponent + digits.length)) negative
      (decimalValue (digitsValue digits) exponent) := by
  -- The point stands before all digits, behind all of them, or among them.
  by_cases leading : exponent + digits.length ≤ 0
  · have reads := reads_pointed negative ['0']
      (List.replicate (-(exponent + digits.length)).toNat '0' ++ digits) (by decide)
      (allDigits_singleton rfl) (List.forall_mem_append.mpr ⟨allDigits_zeros _, allDigits⟩)
    rw [digitsValue_append, digitsValue_append, digitsValue_zeros] at reads
    have places :
        -((List.replicate (-(exponent + digits.length)).toNat '0' ++ digits).length : Int) =
          exponent := by
      rw [List.length_append, List.length_replicate]
      omega
    have zero : digitsValue ['0'] = 0 := rfl
    rw [places, zero, Nat.mul_zero, Nat.mul_zero, Nat.zero_add, Nat.zero_add] at reads
    rw [positionalText, if_pos leading, List.append_assoc]
    exact reads
  · by_cases trailing : (digits.length : Int) ≤ exponent + digits.length
    · have reads := reads_wholeEnding numerals negative filled allDigits
        ((exponent + digits.length).toNat - digits.length)
      have places :
          (((exponent + digits.length).toNat - digits.length : Nat) : Int) = exponent := by
        omega
      rw [places] at reads
      rw [positionalText, if_neg leading, if_pos trailing]
      exact reads
    · have short : (exponent + digits.length).toNat ≠ 0 := by omega
      have reads := reads_pointed negative (digits.take (exponent + digits.length).toNat)
        (digits.drop (exponent + digits.length).toNat) (by simp [short, filled])
        (fun digit member => allDigits digit (List.mem_of_mem_take member))
        (fun digit member => allDigits digit (List.mem_of_mem_drop member))
      have places : -((digits.drop (exponent + digits.length).toNat).length : Int) = exponent := by
        rw [List.length_drop]
        omega
      rw [List.take_append_drop, places] at reads
      rw [positionalText, if_neg leading, if_neg trailing]
      exact reads

/-- Digits with an exponent read as a decimal with their value. -/
theorem reads_exponentText (numerals : style.WritesNumerals) (negative : Bool)
    (filled : digits ≠ []) (allDigits : AllDigits digits) (exponent : Int) :
    Reads (signText negative ++ style.exponentText digits (exponent + digits.length)) negative
      (decimalValue (digitsValue digits) exponent) := by
  have scaled := Decimal.readExponent?_integerText numerals.exponentPlus
    (exponent + digits.length - 1)
  have stops (rest : List Char) : Decimal.Stops ('e' :: rest) := by simp [Decimal.Stops]
  rcases digits with - | ⟨first, - | ⟨second, rest⟩⟩
  · exact absurd rfl filled
  · have read := Decimal.read?_whole negative filled allDigits (stops _) (by simp) scaled
    have places : exponent + ([first] : List Char).length - 1 = exponent := by simp
    refine ⟨_, _, ?_, congrArg (decimalValue _) places⟩
    simpa [exponentText] using read
  · obtain ⟨firstDigit, otherDigits⟩ := List.forall_mem_cons.mp allDigits
    have read := Decimal.read?_pointed negative (second :: rest) (List.cons_ne_nil first [])
      (allDigits_singleton firstDigit) otherDigits (stops _) scaled
    have places : exponent + (first :: second :: rest).length - 1 - (second :: rest).length =
        exponent := by
      simp only [List.length_cons]
      omega
    refine ⟨_, _, ?_, congrArg (decimalValue _) places⟩
    simpa [exponentText] using read

end Digits

/-- The text of a finite double reads as a decimal with its sign and the value of its
shortest decimal. -/
theorem reads_text {style : FloatStyle} (numerals : style.WritesNumerals) (negative : Bool)
    (size : Size) :
    Reads (style.text (.finite negative size)) negative
      (decimalValue (decimal size).1 (decimal size).2) := by
  have written : style.text (.finite negative size) =
      signText negative ++ style.sizeText size := rfl
  rw [written, sizeText]
  obtain ⟨coefficient, exponent⟩ := decimal size
  have filled := naturalDigits_ne_nil coefficient
  have allDigits := allDigits_naturalDigits coefficient
  have positional := reads_positionalText numerals negative filled allDigits exponent
  have scientific := reads_exponentText numerals negative filled allDigits exponent
  rw [digitsValue_naturalDigits] at positional scientific
  dsimp only
  split
  · exact positional
  · exact scientific

/-- Finite doubles with the same text are the same. -/
theorem text_finite_injective {style : FloatStyle} (numerals : style.WritesNumerals)
    {leftSign rightSign : Bool} {left right : Size}
    (same : style.text (.finite leftSign left) = style.text (.finite rightSign right)) :
    leftSign = rightSign ∧ left = right := by
  obtain ⟨leftCoefficient, leftExponent, readLeft, leftValue⟩ := reads_text numerals leftSign left
  obtain ⟨rightCoefficient, rightExponent, readRight, rightValue⟩ :=
    reads_text numerals rightSign right
  rw [same, readRight, Option.some_inj, Decimal.mk.injEq] at readLeft
  obtain ⟨sign, coefficient, exponent⟩ := readLeft
  refine ⟨sign.symm, size_eq_of_decimalValue ?_⟩
  rw [← leftValue, ← rightValue, coefficient, exponent]

end FloatStyle

end FieldGuide
