import FieldGuide.Number.Decimal
import FieldGuide.Text.Hex

/-!
# What an unquoted YAML scalar reads as

This module tells which texts, written without quotes, a YAML reader takes for
something else than text: null, a truth value, an integer or a float.
-/

namespace FieldGuide.Yaml

/-- Whether a text is one of the given words. -/
def isOneOf (words : List String) (text : List Char) : Bool :=
  words.any fun word => word.toList == text

/-- Whether a text reads as null. The empty text does. -/
def readsAsNull (text : List Char) : Bool :=
  text.isEmpty || isOneOf ["null", "Null", "NULL", "~"] text

/-- Whether a text reads as a truth value. -/
def readsAsBool (text : List Char) : Bool :=
  isOneOf ["true", "True", "TRUE", "false", "False", "FALSE"] text

/-- Whether a text is made of digits with a needless zero before them, after at
most one sign. Such a text is no number. -/
def isZeroLed (text : List Char) : Bool :=
  match (Decimal.splitSign text).2 with
  | '0' :: digit :: rest => (digit :: rest).all Char.isDigit
  | _ => false

/-- The number that a text with a base's mark before its digits writes. -/
def markedValue? : List Char → Option Nat
  | '0' :: 'x' :: digits => Text.valueIn? 16 digits
  | '0' :: 'o' :: digits => Text.valueIn? 8 digits
  | '0' :: 'b' :: digits => Text.valueIn? 2 digits
  | _ => none

/-- Whether a text reads as an integer: digits in base ten, or in a base named by
a mark, after at most one sign. The integer fits 128 bits, as an unsigned one
unless it is negative. -/
def readsAsInteger (text : List Char) : Bool :=
  let (negative, digits) := Decimal.splitSign text
  let fits (value : Nat) : Bool := if negative then value ≤ twoTo 127 else value < twoTo 128
  (markedValue? digits).any fits ||
    (!isZeroLed text && (Text.valueIn? 10 digits).any fits)

/-- Whether a text reads as a float: a finite decimal numeral, or the name of an
infinity or of not-a-number. -/
def readsAsFloat (text : List Char) : Bool :=
  isOneOf [".inf", ".Inf", ".INF", "+.inf", "+.Inf", "+.INF", "-.inf", "-.Inf", "-.INF",
    ".nan", ".NaN", ".NAN"] text ||
    (!isZeroLed text && (Decimal.read? text).any fun decimal => decimal.toBinary64.isFinite)

/-- Whether a text needs quotes to stay text: it reads as another scalar, or it
looks like a number with a needless zero. -/
def needsQuotes (text : List Char) : Bool :=
  readsAsNull text || readsAsBool text || readsAsInteger text || readsAsFloat text ||
    isZeroLed text

end FieldGuide.Yaml
