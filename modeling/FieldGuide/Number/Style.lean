import FieldGuide.Number.Shortest

/-!
# Layouts of floating-point text

This module turns the shortest decimal of a double into text. What differs
between formats is one record, `FloatStyle`, with one value for each format the
library writes.
-/

namespace FieldGuide

/-- The decisions a format takes about floating-point text. `positional` tells
for which places of the decimal point, counted from the first digit, no exponent
is written. -/
structure FloatStyle where
  positional : Int → Bool
  wholeEnding : List Char
  exponentPlus : List Char
  nan : List Char
  infinity : List Char

namespace FloatStyle

/-- YAML text: an exponent outside `-4 … 16`, a fraction on whole numbers. -/
def yaml : FloatStyle where
  positional point := -5 < point && point ≤ 16
  wholeEnding := ['.', '0']
  exponentPlus := []
  nan := ['.', 'n', 'a', 'n']
  infinity := ['.', 'i', 'n', 'f']

/-- JSON text differs from YAML text in the sign of a positive exponent. -/
def json : FloatStyle :=
  { yaml with exponentPlus := ['+'] }

/-- Plain text in messages about settings: never an exponent, and whole numbers
look like integers. -/
def plain : FloatStyle where
  positional _ := true
  wholeEnding := []
  exponentPlus := []
  nan := ['N', 'a', 'N']
  infinity := ['i', 'n', 'f']

/-- Writes digits without an exponent, the decimal point `point` places after
the first digit begins. -/
def positionalText (style : FloatStyle) (digits : List Char) (point : Int) : List Char :=
  if point ≤ 0 then
    ['0', '.'] ++ List.replicate (-point).toNat '0' ++ digits
  else if (digits.length : Int) ≤ point then
    digits ++ List.replicate (point.toNat - digits.length) '0' ++ style.wholeEnding
  else
    digits.take point.toNat ++ '.' :: digits.drop point.toNat

/-- Writes digits with an exponent, one digit before the decimal point. -/
def exponentText (style : FloatStyle) (digits : List Char) (point : Int) : List Char :=
  let mantissa :=
    match digits with
    | first :: second :: rest => first :: '.' :: second :: rest
    | _ => digits
  let power := point - 1
  mantissa ++ 'e' :: (if 0 ≤ power then style.exponentPlus else []) ++ integerText power

/-- The text of a size. -/
def sizeText (style : FloatStyle) (size : Size) : List Char :=
  let (coefficient, exponent) := Shortest.decimal size
  let digits := naturalDigits coefficient
  let point := exponent + digits.length
  if style.positional point then style.positionalText digits point
  else style.exponentText digits point

/-- The text of a double. A minus sign stands before negative values, zero
included; not-a-number has no sign. -/
def text (style : FloatStyle) : Binary64 → List Char
  | .nan => style.nan
  | .infinite negative => (if negative then ['-'] else []) ++ style.infinity
  | .finite negative size => (if negative then ['-'] else []) ++ style.sizeText size

end FloatStyle

end FieldGuide
