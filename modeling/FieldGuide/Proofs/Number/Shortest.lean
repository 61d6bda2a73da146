import FieldGuide.Number.Shortest
import Mathlib.Algebra.Order.Field.Rat
import Mathlib.Tactic.Linarith
import Mathlib.Tactic.NormNum
import Mathlib.Tactic.Ring

/-!
# The shortest decimal determines its double

The decimal a positive double is printed as lies among the reals that round to it. The
reals that round to two different doubles lie apart: they may touch in one point, and
rounding to the even significand gives that point to one of them. So no decimal is the
shortest one of two doubles.
-/

namespace FieldGuide

/-- Powers of two are positive. -/
theorem twoTo_pos (exponent : Nat) : 0 < twoTo exponent := Nat.pow_pos Nat.two_pos

/-- Powers of ten are positive. -/
theorem tenTo_pos (exponent : Nat) : 0 < tenTo exponent := Nat.pow_pos (by decide)

namespace Shortest

/-- The number that a coefficient and an exponent of ten stand for. -/
def decimalValue (coefficient : Nat) (exponent : Int) : ℚ := coefficient * (10 : ℚ) ^ exponent

namespace Interval

/-- Whether a real number lies in the interval. -/
def Holds (interval : Interval) (number : ℚ) : Prop :=
  if interval.closed then
    interval.lower ≤ number * interval.denominator ∧ number * interval.denominator ≤ interval.upper
  else
    interval.lower < number * interval.denominator ∧ number * interval.denominator < interval.upper

/-- A whole number lies in the interval as a number does. -/
theorem contains_iff (interval : Interval) (candidate : Nat) :
    interval.contains candidate = true ↔
      if interval.closed then
        interval.lower ≤ candidate * interval.denominator ∧
          candidate * interval.denominator ≤ interval.upper
      else
        interval.lower < candidate * interval.denominator ∧
          candidate * interval.denominator < interval.upper := by
  simp only [contains]
  split <;> rw [Bool.and_eq_true, decide_eq_true_iff, decide_eq_true_iff]

/-- A number of the interval is not below it. -/
theorem Holds.lower_le {interval : Interval} {number : ℚ} (holds : interval.Holds number) :
    (interval.lower : ℚ) ≤ number * interval.denominator := by
  rw [Holds] at holds
  split at holds
  · exact holds.1
  · exact le_of_lt holds.1

/-- A number of the interval is not above it. -/
theorem Holds.le_upper {interval : Interval} {number : ℚ} (holds : interval.Holds number) :
    number * interval.denominator ≤ (interval.upper : ℚ) := by
  rw [Holds] at holds
  split at holds
  · exact holds.2
  · exact le_of_lt holds.2

/-- A power of ten is the ratio of the scales that a grid multiplies with. -/
theorem zpow_eq_ratio (exponent : Int) :
    (10 : ℚ) ^ exponent = (tenTo exponent.toNat : ℚ) / (tenTo (-exponent).toNat : ℚ) := by
  have powers (count : Nat) : ((tenTo count : Nat) : ℚ) = 10 ^ count := by
    rw [tenTo, Nat.pow_eq]
    push_cast
    rfl
  rw [powers, powers]
  cases exponent with
  | ofNat count => simp
  | negSucc count => simp [zpow_negSucc, Int.neg_negSucc]

/-- A whole number lies in the interval on a grid when the number it stands for lies in
the interval. -/
theorem contains_onGrid_iff (interval : Interval) (exponent : Int) (candidate : Nat) :
    (interval.onGrid exponent).contains candidate = true ↔
      interval.Holds (decimalValue candidate exponent) := by
  have positive : (0 : ℚ) < (tenTo (-exponent).toNat : Nat) := by
    exact_mod_cast tenTo_pos _
  have scaled : decimalValue candidate exponent * interval.denominator =
      (candidate * (interval.denominator * tenTo exponent.toNat) : Nat) /
        (tenTo (-exponent).toNat : Nat) := by
    rw [decimalValue, zpow_eq_ratio]
    push_cast
    ring
  rw [Holds, scaled, le_div_iff₀ positive, div_le_iff₀ positive, lt_div_iff₀ positive,
    div_lt_iff₀ positive]
  rw [contains_iff]
  by_cases closed : interval.closed = true
  · have gridClosed : (interval.onGrid exponent).closed = true := closed
    rw [if_pos closed, if_pos gridClosed]
    exact_mod_cast Iff.rfl
  · have gridOpen : ¬(interval.onGrid exponent).closed = true := closed
    rw [if_neg closed, if_neg gridOpen]
    exact_mod_cast Iff.rfl

/-- The nearest whole number of an interval lies in it. -/
theorem contains_of_nearest {interval : Interval} {candidate : Nat}
    (nearest : interval.nearest? = some candidate) : interval.contains candidate = true := by
  have rounded : roundHalfEven interval.value interval.denominator =
      interval.value / interval.denominator ∨
    roundHalfEven interval.value interval.denominator =
      interval.value / interval.denominator + 1 := by
    simp only [roundHalfEven]
    split_ifs <;> simp
  simp only [nearest?] at nearest
  split at nearest
  · cases nearest
  · next below _ => rwa [← Option.some.inj nearest]
  · next _ above => rwa [← Option.some.inj nearest]
  · next below above =>
      rw [← Option.some.inj nearest]
      rcases rounded with same | same <;> rw [same] <;> assumption

/-- An interval whose ends are farther from its value than the grid is wide has a whole
number just below the value. -/
theorem nearest?_isSome {interval : Interval} (positive : 0 < interval.denominator)
    (lowerFar : interval.lower + interval.denominator < interval.value)
    (upperFar : interval.value < interval.upper) : interval.nearest?.isSome = true := by
  have below : interval.value / interval.denominator * interval.denominator ≤ interval.value :=
    Nat.div_mul_le_self _ _
  have above : interval.value <
      interval.value / interval.denominator * interval.denominator + interval.denominator :=
    Nat.lt_div_mul_add positive
  have within : interval.contains (interval.value / interval.denominator) = true := by
    rw [contains_iff]
    split <;> omega
  simp only [nearest?, within]
  cases interval.contains (interval.value / interval.denominator + 1) <;> rfl

/-- The lower end of a positive size's interval is at least a quarter of a unit below the
size, which on a fine grid is more than the width of the grid. -/
theorem lower_far {significand scale unit grid below : Nat} (positive : significand ≠ 0)
    (scaled : 0 < scale) (least : 1 ≤ below) (fine : unit < grid) :
    (4 * significand - below) * scale * grid + unit < 4 * significand * scale * grid := by
  obtain ⟨less, exact⟩ : ∃ less, 4 * significand = less + 1 := ⟨4 * significand - 1, by omega⟩
  calc (4 * significand - below) * scale * grid + unit
      ≤ less * scale * grid + unit := by
        gcongr
        omega
    _ < less * scale * grid + grid := by omega
    _ ≤ less * scale * grid + scale * grid := by
        gcongr
        exact Nat.le_mul_of_pos_left _ scaled
    _ = 4 * significand * scale * grid := by
        rw [exact]
        ring

/-- The grid of multiples of `10 ^ -329` meets the interval of every positive size. -/
theorem nearest?_finest {size : Size} (positive : size.significand ≠ 0) :
    ((ofSize size).onGrid (-329)).nearest?.isSome = true := by
  have fine : 4 * twoTo 1074 * tenTo 0 < tenTo 329 := by decide +kernel
  apply nearest?_isSome
  · change 0 < 4 * twoTo 1074 * tenTo 0
    exact Nat.mul_pos (Nat.mul_pos (Nat.succ_pos 3) (twoTo_pos 1074)) (tenTo_pos 0)
  · change (4 * size.significand - _) * twoTo size.shift * tenTo 329 + 4 * twoTo 1074 * tenTo 0 <
      4 * size.significand * twoTo size.shift * tenTo 329
    refine lower_far positive (twoTo_pos size.shift) ?_ fine
    split <;> decide
  · change 4 * size.significand * twoTo size.shift * tenTo 329 <
      (4 * size.significand + 2) * twoTo size.shift * tenTo 329
    have wider : 4 * size.significand * twoTo size.shift <
        (4 * size.significand + 2) * twoTo size.shift :=
      Nat.mul_lt_mul_of_pos_right (by omega) (twoTo_pos size.shift)
    exact Nat.mul_lt_mul_of_pos_right wider (tenTo_pos 329)

end Interval

/-- The shortest decimal of a positive size lies in the interval of the size. -/
theorem holds_decimal {size : Size} (positive : size.significand ≠ 0) :
    (Interval.ofSize size).Holds (decimalValue (decimal size).1 (decimal size).2) := by
  have finest : (-329 : Int) ∈ gridExponents :=
    List.mem_map.mpr ⟨639, List.mem_range.mpr (by decide), by decide⟩
  have found : (gridExponents.findSome? fun exponent =>
      ((Interval.ofSize size).onGrid exponent).nearest?.map fun coefficient =>
        (coefficient, exponent)).isSome = true := by
    rw [List.findSome?_isSome_iff]
    refine ⟨-329, finest, ?_⟩
    rw [Option.isSome_map]
    exact Interval.nearest?_finest positive
  obtain ⟨result, search⟩ := Option.isSome_iff_exists.mp found
  obtain ⟨exponent, -, grid⟩ := List.exists_of_findSome?_eq_some search
  obtain ⟨coefficient, nearest, rfl⟩ := Option.map_eq_some_iff.mp grid
  have chosen : decimal size = (coefficient, exponent) := by
    rw [decimal, if_neg positive]
    simp only [search, Option.getD_some]
  rw [chosen]
  exact (Interval.contains_onGrid_iff _ _ _).mp (Interval.contains_of_nearest nearest)

/-- Of two canonical sizes, the one with the smaller shift is the smaller one, and of
sizes with one shift the one with the smaller significand. -/
def Precedes (left right : Size) : Prop :=
  left.shift < right.shift ∨ left.shift = right.shift ∧ left.significand < right.significand

/-- Of two different sizes, one precedes the other. -/
theorem precedes_or_precedes {left right : Size} (differ : left ≠ right) :
    Precedes left right ∨ Precedes right left := by
  have parts : ¬(left.significand = right.significand ∧ left.shift = right.shift) := by
    rintro ⟨significand, shift⟩
    apply differ
    cases left
    cases right
    simp_all
  simp only [Precedes]
  omega

/-- The lower end of a size's interval is nearer to the size at the bottom of a binade. -/
theorem ofSize_lower (size : Size) :
    ∃ below, (Interval.ofSize size).lower = (4 * size.significand - below) * twoTo size.shift ∧
      (below = 1 ∧ size.significand = 4503599627370496 ∧ size.shift ≠ 0 ∨
        below = 2 ∧ (size.significand = 4503599627370496 → size.shift = 0)) := by
  refine ⟨_, rfl, ?_⟩
  have binade : twoTo 52 = 4503599627370496 := rfl
  rw [binade]
  split
  · next bottom => exact .inl ⟨rfl, bottom⟩
  · next other =>
      exact .inr ⟨rfl, fun significand => by_contra fun shift => other ⟨significand, shift⟩⟩

/-- The significand of a canonical size fits 53 bits and fills them unless the size is not
shifted. -/
theorem significand_bounds (size : Size) :
    size.significand < 9007199254740992 ∧
      (size.shift = 0 ∨ 4503599627370496 ≤ size.significand) :=
  ⟨size.canonical.1, size.canonical.2.2⟩

/-- The interval of a preceding size ends where the other begins at the latest, and where
they touch, they are not both closed: the significands next to a common end are not both
even. -/
theorem upper_le_lower {left right : Size} (before : Precedes left right) :
    (Interval.ofSize left).upper ≤ (Interval.ofSize right).lower ∧
      ((Interval.ofSize left).upper = (Interval.ofSize right).lower →
        ¬((Interval.ofSize left).closed = true ∧ (Interval.ofSize right).closed = true)) := by
  obtain ⟨below, lower, gap⟩ := ofSize_lower right
  obtain ⟨leftFits, leftFull⟩ := significand_bounds left
  obtain ⟨-, rightFull⟩ := significand_bounds right
  have scaled := twoTo_pos left.shift
  have upper : (Interval.ofSize left).upper = (4 * left.significand + 2) * twoTo left.shift := rfl
  simp only [Interval.ofSize, decide_eq_true_iff] at lower upper ⊢
  rw [lower]
  rcases before with shift | ⟨shift, significand⟩
  · obtain ⟨more, shifted⟩ : ∃ more, right.shift = left.shift + (more + 1) :=
      ⟨right.shift - left.shift - 1, by omega⟩
    have doubled : twoTo right.shift = 2 * twoTo more * twoTo left.shift := by
      simp only [twoTo, Nat.pow_eq, shifted]
      ring
    have steps : 18014398509481983 ≤ 4 * right.significand - below := by omega
    have room : 2 * 18014398509481983 ≤ (4 * right.significand - below) * (2 * twoTo more) := by
      have least := Nat.mul_le_mul steps (Nat.mul_le_mul_left 2 (twoTo_pos more))
      omega
    rw [doubled, ← Nat.mul_assoc]
    constructor
    · exact Nat.mul_le_mul_right _ (by omega)
    · intro touch
      have same := Nat.eq_of_mul_eq_mul_right scaled touch
      omega
  · rw [← shift]
    have steps : 4 * left.significand + 2 ≤ 4 * right.significand - below := by omega
    constructor
    · exact Nat.mul_le_mul_right _ steps
    · intro touch
      have same := Nat.eq_of_mul_eq_mul_right scaled touch
      omega

/-- No number lies in the intervals of two sizes of which one precedes the other. -/
theorem not_holds_of_precedes {left right : Size} (before : Precedes left right) {number : ℚ}
    (inLeft : (Interval.ofSize left).Holds number) :
    ¬(Interval.ofSize right).Holds number := by
  intro inRight
  obtain ⟨apart, touch⟩ := upper_le_lower before
  have sameDenominator : (Interval.ofSize left).denominator =
      (Interval.ofSize right).denominator := rfl
  have leftEnd := inLeft.le_upper
  have rightEnd := inRight.lower_le
  rw [sameDenominator] at leftEnd
  have apartRational : ((Interval.ofSize left).upper : ℚ) ≤ (Interval.ofSize right).lower := by
    exact_mod_cast apart
  -- The number is the common end of both intervals, which one of them leaves out.
  have common : ((Interval.ofSize left).upper : ℚ) = (Interval.ofSize right).lower := by
    linarith
  apply touch (by exact_mod_cast common)
  constructor
  · by_contra leftOpen
    rw [Interval.Holds, if_neg leftOpen, sameDenominator] at inLeft
    linarith [inLeft.2]
  · by_contra rightOpen
    rw [Interval.Holds, if_neg rightOpen] at inRight
    linarith [inRight.1]

/-- The decimal of a positive size is positive. -/
theorem decimalValue_pos {size : Size} (positive : size.significand ≠ 0) :
    0 < decimalValue (decimal size).1 (decimal size).2 := by
  obtain ⟨below, lower, gap⟩ := ofSize_lower size
  have lowerEnd := (holds_decimal positive).lower_le
  have steps : 0 < 4 * size.significand - below := by omega
  have lowerPositive : (0 : ℚ) < (Interval.ofSize size).lower := by
    rw [lower]
    exact_mod_cast Nat.mul_pos steps (twoTo_pos size.shift)
  have denominator : (0 : ℚ) < (Interval.ofSize size).denominator :=
    Nat.cast_pos.mpr (Nat.mul_pos (Nat.succ_pos 3) (twoTo_pos 1074))
  exact pos_of_mul_pos_left (lt_of_lt_of_le lowerPositive lowerEnd) (le_of_lt denominator)

/-- Zero has one canonical size. -/
theorem eq_zero_of_significand {size : Size} (zero : size.significand = 0) :
    size = Size.zero := by
  obtain ⟨-, full⟩ := significand_bounds size
  have shift : size.shift = 0 := by omega
  cases size
  simp_all [Size.zero]

/-- Sizes whose shortest decimals stand for one number are the same. -/
theorem size_eq_of_decimalValue {left right : Size}
    (same : decimalValue (decimal left).1 (decimal left).2 =
      decimalValue (decimal right).1 (decimal right).2) : left = right := by
  have zeroValue {size : Size} (zero : size.significand = 0) :
      decimalValue (decimal size).1 (decimal size).2 = 0 := by
    rw [decimal, if_pos zero]
    simp [decimalValue]
  by_cases leftZero : left.significand = 0
  · by_cases rightZero : right.significand = 0
    · rw [eq_zero_of_significand leftZero, eq_zero_of_significand rightZero]
    · have positive := decimalValue_pos rightZero
      rw [← same, zeroValue leftZero] at positive
      exact absurd positive (lt_irrefl 0)
  · by_cases rightZero : right.significand = 0
    · have positive := decimalValue_pos leftZero
      rw [same, zeroValue rightZero] at positive
      exact absurd positive (lt_irrefl 0)
    · by_contra differ
      have inLeft := holds_decimal leftZero
      have inRight := holds_decimal rightZero
      rcases precedes_or_precedes differ with before | before
      · exact not_holds_of_precedes before inLeft (same ▸ inRight)
      · exact not_holds_of_precedes before inRight (same ▸ inLeft)

end Shortest

end FieldGuide
