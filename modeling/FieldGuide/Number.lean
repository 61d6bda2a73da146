import FieldGuide.Number.Style

/-!
# Numbers of a document

A number is either an integer of at most 64 bits or a double. The two are never
equal, even when they have the same numeric value.
-/

namespace FieldGuide

/-- The integers a document number can hold: unsigned up to 64 bits, or negative
down to the least signed 64-bit integer. -/
def FitsNumber (value : Int) : Prop :=
  -9223372036854775808 ≤ value ∧ value < 18446744073709551616

instance (value : Int) : Decidable (FitsNumber value) :=
  inferInstanceAs (Decidable (_ ∧ _))

/-- A word is in the range of numbers. -/
theorem fitsNumber_word (word : UInt64) : FitsNumber word.toNat := by
  have bound := word.toNat_lt
  simp only [FitsNumber]
  omega

/-- A signed word is in the range of numbers. -/
theorem fitsNumber_signedWord (word : Int64) : FitsNumber word.toInt := by
  have lower := word.le_toInt
  have upper := word.toInt_lt
  simp only [FitsNumber]
  omega

/-- A number in a document. -/
inductive Number
  | integer (value : Int) (fits : FitsNumber value)
  | float (value : Binary64)
  deriving DecidableEq, Repr

namespace Number

/-- An integer as a document number, when it is in range. -/
def ofInt? (value : Int) : Option Number :=
  if fits : FitsNumber value then some (.integer value fits) else none

/-- The number as an unsigned integer of 64 bits, when it is one. -/
def unsigned? : Number → Option UInt64
  | .integer value _ => if 0 ≤ value then some (.ofNat value.toNat) else none
  | .float _ => none

/-- The number as a signed integer of 64 bits, when it is one. -/
def signed? : Number → Option Int64
  | .integer value _ => if value < 9223372036854775808 then some (.ofInt value) else none
  | .float _ => none

/-- The number as a double, an integer as the nearest one. -/
def double? : Number → Option Binary64
  | .integer value _ => some (.ofRatio (value < 0) (value.natAbs * twoTo 1074) 1)
  | .float value => some value

/-- The number rebuilt from what it is to the machine: an unsigned integer, else a
signed one, else a double. -/
def rebuilt (number : Number) : Number :=
  let unsigned := number.unsigned?.map fun value => .integer value.toNat (fitsNumber_word value)
  let signed := number.signed?.map fun value => .integer value.toInt (fitsNumber_signedWord value)
  (unsigned.or signed).getD (.float (number.double?.getD .nan))

/-- The number as YAML text. -/
def yamlText : Number → List Char
  | .integer value _ => integerText value
  | .float value => FloatStyle.yaml.text value

/-- The number as JSON text. -/
def jsonText : Number → List Char
  | .integer value _ => integerText value
  | .float value => FloatStyle.json.text value

/-- Equality of numbers as a reader sees it: not-a-number equals itself, the two
zeros are equal, and no integer equals a float. -/
def same : Number → Number → Bool
  | .integer left _, .integer right _ => left = right
  | .float left, .float right => left.same right
  | _, _ => false

/-- A double as a document number, unless it is an infinity or not-a-number. -/
def ofFinite? (value : Binary64) : Option Number :=
  if value.isFinite then some (.float value) else none

/-- The number of a JSON numeral. Whole numerals in range are integers; negative zero and
every other numeral are the nearest double, if there is one. -/
def ofJsonNumeral? (text : List Char) : Option Number := do
  guard (Decimal.hasStrictDigits text)
  let decimal ← Decimal.read? text
  let magnitude : Int := decimal.coefficient
  let value := if decimal.negative then -magnitude else magnitude
  let isWhole := (Decimal.splitSign text).2.all Char.isDigit
  if isWhole && !(decimal.negative && decimal.coefficient = 0) then
    (ofInt? value).or (ofFinite? decimal.toBinary64)
  else ofFinite? decimal.toBinary64

end Number

end FieldGuide
