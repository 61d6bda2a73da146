import FieldGuide.Number.Decimal
import Mathlib.Algebra.Ring.Nat
import Mathlib.Data.List.Basic

/-!
# Decimal digits read back

The digits of a natural number are digits, read back to the number, and with a sign they
determine an integer.
-/

namespace FieldGuide

/-- Reading digits is the library's reading in base ten. -/
theorem digitsValue_eq_ofDigitChars (digits : List Char) :
    digitsValue digits = Nat.ofDigitChars 10 digits 0 := by
  rw [Nat.ofDigitChars_eq_foldl]
  rfl

/-- Digits followed by digits are shifted by as many places. -/
theorem digitsValue_append (leading trailing : List Char) :
    digitsValue (leading ++ trailing) =
      10 ^ trailing.length * digitsValue leading + digitsValue trailing := by
  simp only [digitsValue_eq_ofDigitChars]
  rw [Nat.ofDigitChars_append, Nat.ofDigitChars_eq_ofDigitChars_zero]

/-- Zeros write nothing. -/
theorem digitsValue_zeros (count : Nat) : digitsValue (List.replicate count '0') = 0 := by
  rw [digitsValue_eq_ofDigitChars, Nat.ofDigitChars_replicate_zero, Nat.mul_zero]

/-- The digits of a number read back to it. -/
theorem digitsValue_naturalDigits (value : Nat) : digitsValue (naturalDigits value) = value := by
  rw [digitsValue_eq_ofDigitChars, naturalDigits, Nat.ofDigitChars_ten_toDigits]

/-- The digits of a number are decimal digits. -/
theorem isDigit_of_mem_naturalDigits {value : Nat} {digit : Char}
    (member : digit ∈ naturalDigits value) : digit.isDigit = true :=
  Nat.isDigit_of_mem_toDigits (by decide) (by decide) member

/-- A text of decimal digits. -/
abbrev AllDigits (text : List Char) : Prop := ∀ digit ∈ text, digit.isDigit = true

/-- One digit is a text of digits. -/
theorem allDigits_singleton {digit : Char} (isDigit : digit.isDigit = true) : AllDigits [digit] :=
  List.forall_mem_singleton.mpr isDigit

/-- The digits of a number are digits throughout. -/
theorem allDigits_naturalDigits (value : Nat) : AllDigits (naturalDigits value) :=
  fun _ member => isDigit_of_mem_naturalDigits member

/-- Appended zeros are digits. -/
theorem allDigits_zeros (count : Nat) : AllDigits (List.replicate count '0') :=
  fun _ member => List.eq_of_mem_replicate member ▸ rfl

/-- A number has at least one digit. -/
theorem naturalDigits_ne_nil (value : Nat) : naturalDigits value ≠ [] :=
  Nat.toDigits_ne_nil

/-- The digits of a positive number do not start with a zero. -/
theorem head?_naturalDigits {value : Nat} (positive : 0 < value) :
    (naturalDigits value).head? ≠ some '0' := by
  rw [naturalDigits]
  induction value using Nat.strong_induction_on with
  | _ value inductionHypothesis =>
      by_cases small : value < 10
      · rw [Nat.toDigits_of_lt_base small]
        revert small positive
        have each : ∀ digit < 10, 0 < digit → [Nat.digitChar digit].head? ≠ some '0' := by decide
        exact fun positive small => each value small positive
      · rw [Nat.toDigits_of_base_le (by decide) (Nat.not_lt.mp small),
          List.head?_append_of_ne_nil _ Nat.toDigits_ne_nil]
        exact inductionHypothesis (value / 10) (by omega) (by omega)

/-- Numbers with the same digits are the same. -/
theorem naturalDigits_injective {left right : Nat}
    (same : naturalDigits left = naturalDigits right) : left = right := by
  rw [← digitsValue_naturalDigits left, same, digitsValue_naturalDigits]

/-- The first digit of a number is not a minus sign. -/
theorem naturalDigits_ne_minus (value : Nat) (rest : List Char) :
    naturalDigits value ≠ '-' :: rest := by
  intro same
  have member : '-' ∈ naturalDigits value := same ▸ List.mem_cons_self
  exact absurd (isDigit_of_mem_naturalDigits member) (by decide)

/-- Integers with the same text are the same. -/
theorem integerText_injective {left right : Int}
    (same : integerText left = integerText right) : left = right := by
  cases left with
  | ofNat left =>
      cases right with
      | ofNat right => exact congrArg Int.ofNat (naturalDigits_injective same)
      | negSucc right => exact absurd same (naturalDigits_ne_minus _ _)
  | negSucc left =>
      cases right with
      | ofNat right => exact absurd same.symm (naturalDigits_ne_minus _ _)
      | negSucc right =>
          have digits := naturalDigits_injective (List.cons.inj same).2
          exact congrArg Int.negSucc (Nat.succ.inj digits)

end FieldGuide
