import FieldGuide.Number.Decimal
import FieldGuide.Proofs.Number.Shortest

/-!
# Decimals round to their doubles

A decimal that lies among the reals that round to a finite double is read as that double. So
what a double is printed as is read back as the double.
-/

namespace FieldGuide

/-- A ratio is rounded to a whole number that is at most half a unit away, if that number is even
or less than half a unit away. -/
theorem roundHalfEven_eq {numerator denominator nearest : Nat} (positive : 0 < denominator)
    (lower : 2 * nearest * denominator ≤ 2 * numerator + denominator)
    (upper : 2 * numerator ≤ (2 * nearest + 1) * denominator)
    (tie : nearest % 2 = 0 ∨ 2 * nearest * denominator < 2 * numerator + denominator ∧
      2 * numerator < (2 * nearest + 1) * denominator) :
    roundHalfEven numerator denominator = nearest := by
  have split := Nat.div_add_mod numerator denominator
  have rest := Nat.mod_lt numerator positive
  simp only [roundHalfEven]
  generalize numerator / denominator = quotient at *
  generalize numerator % denominator = remainder at *
  have notBelow : quotient ≤ nearest := by
    by_contra less
    have scaled := Nat.mul_le_mul_left denominator (Nat.lt_of_not_le less)
    rw [Nat.mul_succ] at scaled
    linarith
  have notAbove : nearest ≤ quotient + 1 := by
    by_contra more
    have scaled := Nat.mul_le_mul_left denominator (Nat.lt_of_not_le more)
    rw [Nat.mul_succ, Nat.mul_succ] at scaled
    linarith
  obtain rfl | rfl : nearest = quotient ∨ nearest = quotient + 1 := by omega
  · have small : 2 * remainder ≤ denominator := by linarith
    rw [if_neg (Nat.not_lt.mpr small)]
    split_ifs with near even
    · rfl
    · rfl
    · have strict : 2 * remainder < denominator := by
        obtain ⟨-, less⟩ := tie.resolve_left even
        linarith
      exact absurd strict near
  · have large : denominator ≤ 2 * remainder := by linarith
    rw [if_neg (Nat.not_lt.mpr large)]
    split_ifs with far even
    · rfl
    · have strict : denominator < 2 * remainder := by
        obtain ⟨less, -⟩ := tie.resolve_left (by omega)
        linarith
      exact absurd strict far
    · rfl

/-- A greater exponent makes a greater power of two. -/
theorem twoTo_le_twoTo {less more : Nat} (le : less ≤ more) : twoTo less ≤ twoTo more :=
  Nat.pow_le_pow_right Nat.two_pos le

/-- A greater exponent makes a greater power of ten. -/
theorem tenTo_le_tenTo {less more : Nat} (le : less ≤ more) : tenTo less ≤ tenTo more :=
  Nat.pow_le_pow_right (Nat.succ_pos 9) le

/-- Powers of ten multiply by adding their exponents. -/
theorem tenTo_add (first second : Nat) : tenTo (first + second) = tenTo first * tenTo second :=
  Nat.pow_add 10 first second

section Bits

variable {numerator denominator shift : Nat}

/-- A shifted multiple of a number is a multiple of the shifted number. -/
theorem twoTo_add_mul (bits shift denominator : Nat) :
    twoTo (bits + shift) * denominator = twoTo bits * (denominator * twoTo shift) := by
  simp only [twoTo, Nat.pow_eq, pow_add]
  ring

/-- A ratio that fills 53 bits before the point, once it is shifted, is rounded there. -/
theorem roundToBits_eq (positive : 0 < denominator)
    (filled : shift = 0 ∨ twoTo (52 + shift) * denominator ≤ numerator)
    (below : numerator < twoTo (53 + shift) * denominator) :
    roundToBits 53 numerator denominator =
      if roundHalfEven numerator (denominator * twoTo shift) = twoTo 53 then (twoTo 52, shift + 1)
      else (roundHalfEven numerator (denominator * twoTo shift), shift) := by
  have shifted : (if numerator / denominator < twoTo 53 then 0
      else (numerator / denominator).log2 + 1 - 53) = shift := by
    have wholeBelow : numerator / denominator < twoTo (53 + shift) :=
      (Nat.div_lt_iff_lt_mul positive).mpr below
    rcases Nat.eq_zero_or_pos shift with rfl | more
    · rw [if_pos wholeBelow]
    · have wholeFilled : twoTo (52 + shift) ≤ numerator / denominator :=
        (Nat.le_div_iff_mul_le positive).mpr (filled.resolve_left (Nat.ne_of_gt more))
      have full : twoTo 53 ≤ twoTo (52 + shift) := twoTo_le_twoTo (by omega)
      have bits : (numerator / denominator).log2 = 52 + shift := by
        rw [Nat.log2_eq_iff (by have := twoTo_pos (52 + shift); omega)]
        refine ⟨wholeFilled, ?_⟩
        rwa [show 52 + shift + 1 = 53 + shift by omega]
      rw [if_neg (Nat.not_lt.mpr (Nat.le_trans full wholeFilled)), bits]
      omega
  simp only [roundToBits, shifted]

/-- A ratio near a significand of 53 bits is rounded to it. -/
theorem roundToBits_within {significand : Nat} (positive : 0 < denominator)
    (filled : shift = 0 ∨ twoTo (52 + shift) * denominator ≤ numerator)
    (fits : significand < 9007199254740992)
    (lower : 2 * significand * (denominator * twoTo shift) ≤
      2 * numerator + denominator * twoTo shift)
    (upper : 2 * numerator ≤ (2 * significand + 1) * (denominator * twoTo shift))
    (tie : significand % 2 = 0 ∨
      2 * significand * (denominator * twoTo shift) < 2 * numerator + denominator * twoTo shift ∧
        2 * numerator < (2 * significand + 1) * (denominator * twoTo shift)) :
    roundToBits 53 numerator denominator = (significand, shift) := by
  have top := twoTo_add_mul 53 shift denominator
  have unitPositive := Nat.mul_pos positive (twoTo_pos shift)
  have rounded := roundHalfEven_eq unitPositive lower upper tie
  have below : numerator < twoTo (53 + shift) * denominator := by
    have widest : (2 * significand + 1) * (denominator * twoTo shift) <
        2 * (9007199254740992 * (denominator * twoTo shift)) := by
      rw [← Nat.mul_assoc 2]
      exact Nat.mul_lt_mul_of_pos_right (by omega) unitPositive
    change _ = 9007199254740992 * _ at top
    omega
  rw [roundToBits_eq positive filled below, rounded]
  exact if_neg (Nat.ne_of_lt fits)

/-- A ratio just below the bottom of a binade is rounded up to the bottom. -/
theorem roundToBits_bottom (positive : 0 < denominator)
    (near : 18014398509481983 * (denominator * twoTo shift) ≤ 2 * numerator)
    (below : numerator < 9007199254740992 * (denominator * twoTo shift)) :
    roundToBits 53 numerator denominator = (4503599627370496, shift + 1) := by
  have unitPositive := Nat.mul_pos positive (twoTo_pos shift)
  have bottom := twoTo_add_mul 52 shift denominator
  have top := twoTo_add_mul 53 shift denominator
  change _ = 4503599627370496 * _ at bottom
  change _ = 9007199254740992 * _ at top
  have rounded : roundHalfEven numerator (denominator * twoTo shift) = 9007199254740992 :=
    roundHalfEven_eq unitPositive (by omega) (by omega) (.inl rfl)
  have filled : twoTo (52 + shift) * denominator ≤ numerator := by omega
  rw [roundToBits_eq positive (.inr filled) (by omega), rounded]
  exact if_pos rfl

end Bits

namespace Shortest

/-- Whether a ratio lies in an interval that counts quarters; the ends belong to a closed one. -/
structure Interval.HoldsRatio (interval : Interval) (numerator denominator : Nat) : Prop where
  lower : interval.lower * denominator ≤ 4 * numerator
  upper : 4 * numerator ≤ interval.upper * denominator
  inside : interval.closed = true ∨
    interval.lower * denominator < 4 * numerator ∧ 4 * numerator < interval.upper * denominator

/-- A ratio that lies in the interval of a size is rounded to the size. -/
theorem roundToBits_of_holdsRatio {size : Size} {numerator denominator : Nat}
    (positive : 0 < denominator)
    (holds : (Interval.ofSize size).HoldsRatio numerator denominator) :
    roundToBits 53 numerator denominator = (size.significand, size.shift) := by
  obtain ⟨lower, upper, inside⟩ := holds
  obtain ⟨below, lowerEnd, gap⟩ := ofSize_lower size
  obtain ⟨fits, full⟩ := significand_bounds size
  have shifted (place : Nat) : place * twoTo size.shift * denominator =
      place * (denominator * twoTo size.shift) := by
    rw [Nat.mul_assoc, Nat.mul_comm (twoTo size.shift)]
  have scaledUpper : (Interval.ofSize size).upper * denominator =
      (4 * size.significand + 2) * (denominator * twoTo size.shift) :=
    shifted _
  rw [lowerEnd, shifted] at lower inside
  rw [scaledUpper] at upper inside
  simp only [Interval.ofSize, decide_eq_true_iff] at inside
  by_cases filled : size.shift = 0 ∨ twoTo (52 + size.shift) * denominator ≤ numerator
  · have near : 4 * size.significand * (denominator * twoTo size.shift) ≤
        (4 * size.significand - below) * (denominator * twoTo size.shift) +
          2 * (denominator * twoTo size.shift) := by
      rw [← Nat.add_mul]
      exact Nat.mul_le_mul_right _ (by omega)
    refine roundToBits_within positive filled fits (by linarith) (by linarith) ?_
    rcases inside with even | ⟨strictLower, strictUpper⟩
    · exact .inl even
    · exact .inr ⟨by linarith, by linarith⟩
  · -- The ratio lies below the binade of the size, where only its bottom is near.
    obtain ⟨isShifted, under⟩ := not_or.mp filled
    have bottom := twoTo_add_mul 52 size.shift denominator
    change _ = 4503599627370496 * _ at bottom
    have atBottom : size.significand = 4503599627370496 ∧ below = 1 := by
      have less : (4 * size.significand - below) * (denominator * twoTo size.shift) <
          18014398509481984 * (denominator * twoTo size.shift) := by omega
      have steps := Nat.lt_of_mul_lt_mul_right less
      omega
    obtain ⟨shift, shiftIs⟩ := Nat.exists_eq_succ_of_ne_zero isShifted
    have halves : denominator * twoTo size.shift = 2 * (denominator * twoTo shift) := by
      simp only [shiftIs, twoTo, Nat.pow_eq, Nat.succ_eq_add_one, pow_succ]
      ring
    rw [atBottom.1, atBottom.2, halves] at lower
    have rounded : roundToBits 53 numerator denominator = (4503599627370496, shift + 1) :=
      roundToBits_bottom positive (by omega) (by omega)
    rw [rounded, atBottom.1, shiftIs]

section Decimals

variable {size : Size} {decimal : Decimal}

/-- A decimal in the interval of a size is a ratio in it. -/
theorem holdsRatio_of_holds
    (holds : (Interval.ofSize size).Holds (decimalValue decimal.coefficient decimal.exponent)) :
    (Interval.ofSize size).HoldsRatio (decimal.ratio 1074).1 (decimal.ratio 1074).2 := by
  have onGrid := (Interval.contains_iff _ _).mp ((Interval.contains_onGrid_iff _ _ _).mpr holds)
  have point : decimal.coefficient *
      ((Interval.ofSize size).onGrid decimal.exponent).denominator =
        4 * (decimal.ratio 1074).1 := by
    change _ * (4 * twoTo 1074 * tenTo _) = 4 * (_ * tenTo _ * twoTo 1074)
    ring
  rw [point] at onGrid
  split at onGrid
  · next closed => exact ⟨onGrid.1, onGrid.2, .inl closed⟩
  · exact ⟨Nat.le_of_lt onGrid.1, Nat.le_of_lt onGrid.2, .inr onGrid⟩

/-- No decimal in the interval of a size is above all doubles. -/
theorem isHuge_eq_false
    (holds : (Interval.ofSize size).HoldsRatio (decimal.ratio 1074).1 (decimal.ratio 1074).2) :
    decimal.isHuge = false := by
  by_contra huge
  obtain ⟨nonzero, exponent⟩ : decimal.coefficient ≠ 0 ∧ 400 < decimal.exponent := by
    simpa [Decimal.isHuge] using huge
  have upper := holds.upper
  have whole : (decimal.ratio 1074).2 = 1 := by
    rw [Decimal.ratio, show (-decimal.exponent).toNat = 0 by omega]
    rfl
  have least : tenTo 400 * twoTo 1074 ≤ (decimal.ratio 1074).1 := by
    have power : tenTo 400 ≤ tenTo decimal.exponent.toNat := tenTo_le_tenTo (by omega)
    have scaled : tenTo decimal.exponent.toNat ≤
        decimal.coefficient * tenTo decimal.exponent.toNat :=
      Nat.le_mul_of_pos_left _ (Nat.pos_of_ne_zero nonzero)
    exact Nat.mul_le_mul_right (twoTo 1074) (Nat.le_trans power scaled)
  have most : (Interval.ofSize size).upper ≤ 36028797018963970 * twoTo 2045 := by
    refine Nat.mul_le_mul ?_ (twoTo_le_twoTo size.canonical.2.1)
    have fits := (significand_bounds size).1
    omega
  have apart : 36028797018963970 * twoTo 2045 < 4 * (tenTo 400 * twoTo 1074) := by decide +kernel
  rw [whole, Nat.mul_one] at upper
  omega

/-- A tiny decimal is below half of the smallest double. -/
theorem two_mul_ratio_lt_of_isTiny (tiny : decimal.isTiny = true) :
    2 * (decimal.ratio 1074).1 < (decimal.ratio 1074).2 := by
  have small : decimal.coefficient ≠ 0 →
      decimal.exponent + decimal.coefficient.log2 + 400 < 0 := by
    simpa [Decimal.isTiny, or_iff_not_imp_left] using tiny
  by_cases zero : decimal.coefficient = 0
  · simpa [Decimal.ratio, zero] using tenTo_pos _
  · have exponent := small zero
    have numerator : (decimal.ratio 1074).1 <
        twoTo decimal.coefficient.log2 * (2 * twoTo 1074) := by
      rw [Decimal.ratio, show decimal.exponent.toNat = 0 by omega, ← Nat.mul_assoc]
      refine Nat.mul_lt_mul_of_pos_right ?_ (twoTo_pos 1074)
      rw [tenTo, Nat.pow_eq, pow_zero, Nat.mul_one, twoTo, Nat.pow_eq, ← pow_succ]
      exact Nat.lt_log2_self
    have denominator : twoTo decimal.coefficient.log2 * tenTo 400 ≤ (decimal.ratio 1074).2 := by
      have sum : tenTo decimal.coefficient.log2 * tenTo 400 ≤ (decimal.ratio 1074).2 := by
        rw [← tenTo_add]
        exact tenTo_le_tenTo (by omega)
      exact Nat.le_trans (Nat.mul_le_mul_right _ (Nat.pow_le_pow_left (by decide) _)) sum
    have apart : 2 * (2 * twoTo 1074) < tenTo 400 := by decide +kernel
    calc 2 * (decimal.ratio 1074).1
        < 2 * (twoTo decimal.coefficient.log2 * (2 * twoTo 1074)) := by omega
      _ = twoTo decimal.coefficient.log2 * (2 * (2 * twoTo 1074)) := by ring
      _ ≤ twoTo decimal.coefficient.log2 * tenTo 400 :=
          Nat.mul_le_mul_left _ (Nat.le_of_lt apart)
      _ ≤ (decimal.ratio 1074).2 := denominator

/-- No decimal in the interval of a positive size is tiny. -/
theorem isTiny_eq_false (positive : size.significand ≠ 0)
    (holds : (Interval.ofSize size).HoldsRatio (decimal.ratio 1074).1 (decimal.ratio 1074).2) :
    decimal.isTiny = false := by
  by_contra tiny
  have small := two_mul_ratio_lt_of_isTiny (Bool.not_eq_false _ ▸ tiny)
  have lower := holds.lower
  have least : 2 ≤ (Interval.ofSize size).lower := by
    obtain ⟨below, lowerEnd, gap⟩ := ofSize_lower size
    rw [lowerEnd]
    exact Nat.le_trans (by omega) (Nat.le_mul_of_pos_right _ (twoTo_pos size.shift))
  have scaled := Nat.mul_le_mul_right (decimal.ratio 1074).2 least
  omega

end Decimals

end Shortest

namespace Decimal

open Shortest

/-- A decimal with the value of a size's shortest decimal is read as the size. -/
theorem toBinary64_eq_finite {decimal : Decimal} {size : Size}
    (value : decimalValue decimal.coefficient decimal.exponent =
      decimalValue (Shortest.decimal size).1 (Shortest.decimal size).2) :
    decimal.toBinary64 = .finite decimal.negative size := by
  by_cases zero : size.significand = 0
  · have noCoefficient : decimal.coefficient = 0 := by
      rw [Shortest.decimal, if_pos zero] at value
      simpa [decimalValue, zpow_ne_zero] using value
    rw [toBinary64, eq_zero_of_significand zero]
    simp [isHuge, isTiny, noCoefficient, Binary64.zero]
  · have holds := holdsRatio_of_holds (value ▸ holds_decimal zero)
    have positive : 0 < (decimal.ratio 1074).2 := tenTo_pos _
    have rounded := roundToBits_of_holdsRatio positive holds
    rw [toBinary64, isHuge_eq_false holds, isTiny_eq_false zero holds]
    simp [Binary64.ofRatio, rounded, size.canonical]

end Decimal

end FieldGuide
