import FieldGuide.Json.Writer

/-!
# Decoding JSON documents

This module reads typed values out of a JSON document. A record may be written
as an object, or as the list of its slots in declared order; a choice may be
written as its name, or as an object with that name as its only key. Each way to
fail is a constructor of `DecodeError`, whose wording is fixed in one place.
-/

namespace FieldGuide

/-- The reasons why a document does not describe a value. -/
inductive DecodeError
  | missingField (slot : String)
  | unknownChoice (found : String) (expected : List String)
  | wrongType (found : Json) (expected : String)
  | wrongInteger (found : Json) (expected : String)
  | notSingleKey
  | wrongLength (found : Nat) (expected : String)
  deriving DecidableEq, Repr

namespace Json

/-- How an error message names a value that it found. -/
def describe : Json → List Char
  | .null => "null".toList
  | .bool value => "boolean \x60".toList ++ boolText value ++ ['\x60']
  | .number (.integer value _) => "integer \x60".toList ++ integerText value ++ ['\x60']
  | .number (.float value) =>
      "floating point \x60".toList ++ FloatStyle.json.text value ++ ['\x60']
  | .string value => "string ".toList ++ Text.quoted value.toList
  | .array _ => "sequence".toList
  | .object _ => "map".toList

end Json

namespace DecodeError

/-- A name between backticks. -/
def ticked (name : String) : String := "\x60" ++ name ++ "\x60"

/-- The wording of an error. -/
def message : DecodeError → String
  | .missingField slot => "missing field " ++ ticked slot
  | .unknownChoice found expected =>
      "unknown variant " ++ ticked found ++ ", expected one of " ++
        ", ".intercalate (expected.map ticked)
  | .wrongType found expected =>
      "invalid type: " ++ String.ofList found.describe ++ ", expected " ++ expected
  | .wrongInteger found expected =>
      "invalid value: " ++ String.ofList found.describe ++ ", expected " ++ expected
  | .notSingleKey => "invalid value: map, expected map with a single key"
  | .wrongLength found expected =>
      "invalid length " ++ String.ofList (naturalDigits found) ++ ", expected " ++ expected

end DecodeError

/-- The outcome of decoding. -/
abbrev Decoded (α : Type) := Except DecodeError α

/-- What a list with elements to spare is told. -/
def expectedFewer : String := "fewer elements in array"

namespace Json

/-- Reads a string. -/
def decodeString : Json → Decoded String
  | .string value => .ok value
  | other => .error (.wrongType other "a string")

/-- Reads a truth value. -/
def decodeBool : Json → Decoded Bool
  | .bool value => .ok value
  | other => .error (.wrongType other "a boolean")

/-- Reads a natural number of at most 64 bits. -/
def decodeSize : Json → Decoded UInt64
  | .number (.integer (.ofNat value) _) => .ok (.ofNat value)
  | .number (.integer (.negSucc value) fits) =>
      .error (.wrongInteger (.number (.integer (.negSucc value) fits)) "usize")
  | other => .error (.wrongType other "usize")

/-- Reads an optional document; null stands for its absence. -/
def decodeOptional : Json → Option Json
  | .null => none
  | document => some document

/-- Reads each item of a list. -/
def decodeList {α : Type} (decode : Json → Decoded α) : Json → Decoded (List α)
  | .array items => items.mapM decode
  | other => .error (.wrongType other "a sequence")

/-- Reads a list of exactly two strings. -/
def decodeStringPair : Json → Decoded (String × String)
  | .array [] => .error (.wrongLength 0 "a tuple of size 2")
  | .array (first :: rest) => do
      let first ← first.decodeString
      match rest with
      | [] => .error (.wrongLength 1 "a tuple of size 2")
      | second :: spare =>
          let second ← second.decodeString
          if spare.isEmpty then .ok (first, second)
          else .error (.wrongLength (spare.length + 2) expectedFewer)
  | other => .error (.wrongType other "a tuple of size 2")

/-- A closed set of named values. -/
structure Choice (α : Type) where
  values : List α
  name : α → String

/-- Finds the value of a name. -/
def Choice.ofName {α : Type} (choice : Choice α) (name : String) : Decoded α :=
  match choice.values.find? fun value => choice.name value == name with
  | some value => .ok value
  | none => .error (.unknownChoice name (choice.values.map choice.name))

/-- Reads one of a closed set of named values. In an object the name is its only
key, and the value below it is null. -/
def decodeChoice {α : Type} (choice : Choice α) : Json → Decoded α
  | .string name => choice.ofName name
  | .object [(name, content)] => do
      let value ← choice.ofName name
      if content = .null then .ok value else .error (.wrongType content "unit")
  | .object _ => .error .notSingleKey
  | other => .error (.wrongType other "string or map")

/-- The outline of a record: its title, its slots in declared order, those that
must be given, and how one slot's document changes the record read so far. -/
structure Record (α : Type) where
  title : String
  slots : List String
  required : List String
  blank : α
  assign : α → String → Json → Decoded α

namespace Record

variable {α : Type} (record : Record α)

/-- How an error message names the record. -/
def expectation : String := "struct " ++ record.title

/-- Assigns the given slots in the order they are given. -/
def assignAll (given : List (String × Json)) : Decoded α :=
  given.foldlM (fun value (slot, document) => record.assign value slot document) record.blank

/-- The first required slot that is not given. -/
def missing? (given : List String) : Option String :=
  record.required.find? fun slot => !given.contains slot

/-- Reads a record from an object or from the list of its slots. -/
def decode : Json → Decoded α
  | .object members => do
      let value ← record.assignAll members
      match record.missing? (members.map Prod.fst) with
      | some slot => .error (.missingField slot)
      | none => .ok value
  | .array items => do
      let given := record.slots.zip items
      let value ← record.assignAll given
      match record.missing? (given.map Prod.fst) with
      | some slot =>
          .error (.wrongLength (record.slots.idxOf slot)
            (record.expectation ++ " with " ++
              String.ofList (naturalDigits record.slots.length) ++ " elements"))
      | none =>
          if record.slots.length < items.length then
            .error (.wrongLength items.length expectedFewer)
          else .ok value
  | other => .error (.wrongType other record.expectation)

end Record

end Json

end FieldGuide
