/-!
# Double-precision numbers

This module holds the value type of double-precision floating point and the
rounding of an exact ratio to it. Every computation is on natural numbers, so
the values can be compared, printed and reasoned about without the runtime's
own floats.
-/

namespace FieldGuide

/-- A power of two. -/
def twoTo (exponent : Nat) : Nat := Nat.pow 2 exponent

/-- A power of ten. -/
def tenTo (exponent : Nat) : Nat := Nat.pow 10 exponent

/-- A size is canonical when its significand fits 53 bits, its shift stays below
the overflow threshold, and it is normalised unless it is subnormal. -/
def CanonicalSize (significand shift : Nat) : Prop :=
  significand < twoTo 53 ∧ shift ≤ 2045 ∧ (shift = 0 ∨ twoTo 52 ≤ significand)

instance (significand shift : Nat) : Decidable (CanonicalSize significand shift) :=
  inferInstanceAs (Decidable (_ ∧ _ ∧ (_ ∨ _)))

/-- The absolute value of a finite double: `significand · 2 ^ shift` units, where
a unit is `2 ^ -1074`, the smallest positive double. Each finite absolute value
has exactly one canonical form. -/
structure Size where
  significand : Nat
  shift : Nat
  canonical : CanonicalSize significand shift
  deriving DecidableEq, Repr

namespace Size

/-- The size of both zeros. -/
def zero : Size := ⟨0, 0, by decide⟩

end Size

/-- A double-precision number. All not-a-number payloads are one value; the two
zeros are distinct values. -/
inductive Binary64
  | nan
  | infinite (negative : Bool)
  | finite (negative : Bool) (size : Size)
  deriving DecidableEq, Repr

/-- Rounds `numerator / denominator` to the nearest natural number; a half goes
to the even neighbour. -/
def roundHalfEven (numerator denominator : Nat) : Nat :=
  let quotient := numerator / denominator
  let remainder := numerator % denominator
  if 2 * remainder < denominator then quotient
  else if denominator < 2 * remainder then quotient + 1
  else if quotient % 2 = 0 then quotient
  else quotient + 1

/-- Rounds the ratio `numerator / denominator` to `precision` significant bits
and returns the significand with the number of bits it is shifted by. Ratios
below `2 ^ precision` are rounded to a whole number. -/
def roundToBits (precision numerator denominator : Nat) : Nat × Nat :=
  let whole := numerator / denominator
  let shift := if whole < twoTo precision then 0 else whole.log2 + 1 - precision
  let significand := roundHalfEven numerator (denominator * twoTo shift)
  if significand = twoTo precision then (twoTo (precision - 1), shift + 1)
  else (significand, shift)

namespace Binary64

/-- Positive or negative zero. -/
def zero (negative : Bool) : Binary64 := .finite negative .zero

/-- The double nearest to `numerator / denominator` units, infinite when it is
too large for a finite double. -/
def ofRatio (negative : Bool) (numerator denominator : Nat) : Binary64 :=
  let rounded := roundToBits 53 numerator denominator
  if canonical : CanonicalSize rounded.1 rounded.2 then
    .finite negative ⟨rounded.1, rounded.2, canonical⟩
  else
    .infinite negative

/-- A finite single-precision number as the equal double; `significand` is
shifted by `shift` bits and counts multiples of `2 ^ -149`. Sizes above the
single-precision range are infinite. -/
def ofSingle (negative : Bool) (significand shift : Nat) : Binary64 :=
  if shift ≤ 253 then .ofRatio negative (significand * twoTo (shift + 925)) 1
  else .infinite negative

/-- Numeric equality, except that not-a-number equals itself: the two zeros are
the same, and so are equal values of one sign. -/
def same : Binary64 → Binary64 → Bool
  | .nan, .nan => true
  | .infinite left, .infinite right => left == right
  | .finite leftSign left, .finite rightSign right =>
      left = right && (leftSign == rightSign || left = .zero)
  | _, _ => false

/-- Whether the value is a number other than the infinities. -/
def isFinite : Binary64 → Bool
  | .finite _ _ => true
  | _ => false

end Binary64

end FieldGuide
