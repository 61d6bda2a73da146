import FieldGuide.Example.Tree
import FieldGuide.Json.Writer
import FieldGuide.Keyed

/-!
# Drafts of example trees

A draft is an example before its keys are settled: a mapping's keys may be any
values, distinct from each other, and a variant with content carries its name as
a tag. Turning a draft into a tree makes text of scalar keys and refuses the
others.
-/

namespace FieldGuide

/-- An example whose keys are arbitrary values. -/
inductive Draft
  | null
  | bool (value : Bool)
  | number (value : Number)
  | text (value : String)
  | sequence (items : List Draft)
  | mapping (entries : List (Draft × Draft))
  | tagged (tag : String) (content : Draft)
  deriving Repr, Inhabited

namespace Draft

/-- A tag without the one exclamation mark that may introduce it. -/
def bareTag (tag : String) : List Char :=
  match tag.toList with
  | '!' :: c :: rest => c :: rest
  | name => name

mutual

/-- Equality of drafts as mapping keys. Numbers are compared as a reader sees
them, and the order of a mapping's entries does not count. -/
def same : Draft → Draft → Bool
  | .null, .null => true
  | .bool left, .bool right => left == right
  | .number left, .number right => left.same right
  | .text left, .text right => left == right
  | .sequence left, .sequence right => sameItems left right
  | .mapping left, .mapping right => left.length == right.length && allFound left right
  | .tagged leftTag left, .tagged rightTag right =>
      bareTag leftTag == bareTag rightTag && same left right
  | _, _ => false

/-- Equality of sequences, item by item. -/
def sameItems : List Draft → List Draft → Bool
  | [], [] => true
  | left :: leftRest, right :: rightRest => same left right && sameItems leftRest rightRest
  | _, _ => false

/-- Whether each entry of the first mapping is one of the second. -/
def allFound : List (Draft × Draft) → List (Draft × Draft) → Bool
  | [], _ => true
  | (key, value) :: rest, entries =>
      (entries.any fun (otherKey, other) => same key otherKey && same value other) &&
        allFound rest entries

end

/-- Drafts are compared as mapping keys. -/
instance : BEq Draft := ⟨same⟩

/-- The pieces with commas and spaces between them. -/
def listed : List (List Char) → List Char
  | [] => []
  | [piece] => piece
  | piece :: rest => piece ++ ',' :: ' ' :: listed rest

/-- How an error message shows a scalar key: without the name of its kind. -/
def bare? : Draft → Option (List Char)
  | .bool value => some (Json.boolText value)
  | .number value => some value.yamlText
  | .text value => some (Text.quoted value.toList)
  | _ => none

mutual

/-- How an error message shows a draft. -/
def describe : Draft → List Char
  | .null => "Null".toList
  | .bool value => "Bool(".toList ++ Json.boolText value ++ [')']
  | .number value => "Number(".toList ++ value.yamlText ++ [')']
  | .text value => "String(".toList ++ Text.quoted value.toList ++ [')']
  | .sequence items => "Sequence [".toList ++ listed (describeItems items) ++ [']']
  | .mapping entries =>
      "Mapping \x7b".toList ++ listed (describeEntries entries) ++ ['\x7d']
  | .tagged tag content =>
      "TaggedValue \x7b tag: !".toList ++ bareTag tag ++ ", value: ".toList ++
        describe content ++ " \x7d".toList

/-- How an error message shows the items of a sequence. -/
def describeItems : List Draft → List (List Char)
  | [] => []
  | item :: rest => describe item :: describeItems rest

/-- How an error message shows the entries of a mapping. -/
def describeEntries : List (Draft × Draft) → List (List Char)
  | [] => []
  | (key, value) :: rest =>
      ((bare? key).getD (describe key) ++ ':' :: ' ' :: describe value) :: describeEntries rest

end

end Draft

/-- The reasons why an example has no tree. -/
inductive EncodeError
  | emptyTag
  | keyNotScalar (key : Draft)
  | failure (text : String)
  deriving Repr

/-- The wording of an error. -/
def EncodeError.message (error : EncodeError) : String :=
  "failed to encode example config: " ++
    match error with
    | .emptyTag => "empty YAML tag is not allowed"
    | .keyNotScalar key =>
        "mapping keys must be strings, numbers or booleans, found " ++ .ofList key.describe
    | .failure text => text

namespace Draft

/-- The key a tagged value is shown under: its tag without exclamation marks
before it. -/
def variantKey (tag : String) : String := .ofList (tag.toList.dropWhile (· == '!'))

/-- The text of a scalar key. -/
def keyText : Draft → Except EncodeError String
  | .text value => .ok value
  | .bool value => .ok (.ofList (Json.boolText value))
  | .number value => .ok (.ofList value.yamlText)
  | other => .error (.keyNotScalar other)

mutual

/-- The tree of a draft. Each key is settled before its value, and entries and
items from first to last. -/
def toTree : Draft → Except EncodeError Tree
  | .null => .ok .null
  | .bool value => .ok (.bool value)
  | .number value => .ok (.number value)
  | .text value => .ok (.text value)
  | .sequence items => do return .sequence (← toTrees items)
  | .mapping entries => do return .mapping (← toTreeEntries entries)
  | .tagged tag content => do return (← toTree content).under (variantKey tag)

/-- The trees of the items of a sequence. -/
def toTrees : List Draft → Except EncodeError (List Tree)
  | [] => .ok []
  | item :: rest => do
      let item ← toTree item
      return item :: (← toTrees rest)

/-- The entries of a mapping with text keys. -/
def toTreeEntries : List (Draft × Draft) → Except EncodeError (List (String × Tree))
  | [] => .ok []
  | (key, value) :: rest => do
      let key ← keyText key
      let value ← toTree value
      return (key, value) :: (← toTreeEntries rest)

end

end Draft

end FieldGuide
