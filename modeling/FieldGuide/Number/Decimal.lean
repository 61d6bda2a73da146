import FieldGuide.Number.Binary64

/-!
# Decimal numerals

This module reads decimal numerals and finds the double nearest to one. A
numeral has an optional sign, digits with at most one point among or around
them, and an optional exponent.
-/

namespace FieldGuide

/-- The value of an ASCII decimal digit. -/
def digitValue (digit : Char) : Nat := digit.toNat - '0'.toNat

/-- The number a list of decimal digits writes. -/
def digitsValue (digits : List Char) : Nat :=
  digits.foldl (fun value digit => 10 * value + digitValue digit) 0

/-- The digits of a natural number, without leading zeros. -/
def naturalDigits (value : Nat) : List Char := Nat.toDigits 10 value

/-- The text of an integer: its digits, after a minus sign when it is negative. -/
def integerText : Int → List Char
  | .ofNat value => naturalDigits value
  | .negSucc value => '-' :: naturalDigits (value + 1)

/-- An exact decimal number: `± coefficient · 10 ^ exponent`. -/
structure Decimal where
  negative : Bool
  coefficient : Nat
  exponent : Int
  deriving DecidableEq, Repr

namespace Decimal

/-- Splits off a leading sign and tells whether it was a minus. -/
def splitSign : List Char → Bool × List Char
  | '-' :: rest => (true, rest)
  | '+' :: rest => (false, rest)
  | text => (false, text)

/-- Reads what follows the digits of a numeral: nothing, or an exponent mark and
a signed whole number. -/
def readExponent? : List Char → Option Int
  | [] => some 0
  | mark :: text =>
      if mark = 'e' ∨ mark = 'E' then
        let (negative, digits) := splitSign text
        if digits ≠ [] ∧ digits.all Char.isDigit then
          let value : Int := digitsValue digits
          some (if negative then -value else value)
        else none
      else none

/-- Reads a decimal numeral that spans the whole text. At least one digit stands
before or after the point. -/
def read? (text : List Char) : Option Decimal :=
  let (negative, unsigned) := splitSign text
  let whole := unsigned.takeWhile Char.isDigit
  let afterWhole := unsigned.dropWhile Char.isDigit
  let (fraction, rest) :=
    match afterWhole with
    | '.' :: tail => (tail.takeWhile Char.isDigit, tail.dropWhile Char.isDigit)
    | _ => ([], afterWhole)
  if whole = [] ∧ fraction = [] then none
  else
    (readExponent? rest).map fun exponent =>
      ⟨negative, digitsValue (whole ++ fraction), exponent - fraction.length⟩

/-- Whether the digits of a numeral stand as JSON has them: no plus sign before them, no
zero before others, and some on either side of a point. -/
def hasStrictDigits (text : List Char) : Bool :=
  let unsigned := if text.head? = some '-' then text.tail else text
  let whole := unsigned.takeWhile Char.isDigit
  let afterWhole := unsigned.dropWhile Char.isDigit
  (whole.length = 1 || whole.head?.any (· != '0')) &&
    (afterWhole.head? != some '.' || afterWhole.tail.head?.any Char.isDigit)

/-- The coefficient and a power of two as a ratio: the number of multiples of
`2 ^ -scale` in the absolute value. -/
def ratio (decimal : Decimal) (scale : Nat) : Nat × Nat :=
  (decimal.coefficient * tenTo decimal.exponent.toNat * twoTo scale,
    tenTo (-decimal.exponent).toNat)

/-- A positive decimal with an exponent above 400 exceeds every double. -/
def isHuge (decimal : Decimal) : Bool :=
  decimal.coefficient ≠ 0 && 400 < decimal.exponent

/-- A decimal is below half of the smallest double when it is zero or when even
a digit for every bit of its coefficient leaves it under `10 ^ -399`. -/
def isTiny (decimal : Decimal) : Bool :=
  decimal.coefficient = 0 || decimal.exponent + decimal.coefficient.log2 + 400 < 0

/-- The double nearest to a decimal; a tie goes to the even significand. -/
def toBinary64 (decimal : Decimal) : Binary64 :=
  if decimal.isHuge then .infinite decimal.negative
  else if decimal.isTiny then .zero decimal.negative
  else
    let (numerator, denominator) := decimal.ratio 1074
    .ofRatio decimal.negative numerator denominator

/-- The single-precision number nearest to a decimal, as the equal double. -/
def toSingle (decimal : Decimal) : Binary64 :=
  if decimal.isHuge then .infinite decimal.negative
  else if decimal.isTiny then .zero decimal.negative
  else
    let (numerator, denominator) := decimal.ratio 149
    let (significand, shift) := roundToBits 24 numerator denominator
    .ofSingle decimal.negative significand shift

end Decimal

end FieldGuide
