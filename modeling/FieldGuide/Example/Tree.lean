import FieldGuide.Json.Basic

/-!
# Example trees

This module holds the tree an example configuration is shown as: scalars,
sequences, and mappings from text keys whose entries keep their order. A mapping
may repeat a key; looking a key up finds its first entry.
-/

namespace FieldGuide

/-- An example configuration with text keys. -/
inductive Tree
  | null
  | bool (value : Bool)
  | number (value : Number)
  | text (value : String)
  | sequence (items : List Tree)
  | mapping (entries : List (String × Tree))
  deriving Repr, Inhabited

namespace Tree

/-- Wraps a tree in a mapping with one key. -/
def under (tree : Tree) (key : String) : Tree := .mapping [(key, tree)]

/-- The entries of a mapping. -/
def entries? : Tree → Option (List (String × Tree))
  | .mapping entries => some entries
  | _ => none

/-- The items of a sequence. -/
def items? : Tree → Option (List Tree)
  | .sequence items => some items
  | _ => none

/-- The value of the first entry with a key. -/
def get? (tree : Tree) (key : String) : Option Tree :=
  tree.entries?.bind fun entries => entries.lookup key

/-- The keys of a mapping, in order. Other trees have no keys. -/
def keys (tree : Tree) : List String := (tree.entries?.getD []).map Prod.fst

mutual

/-- Whether a mapping entry stands at the top of the tree or below sequences of
it. -/
def isPopulated : Tree → Bool
  | .mapping entries => !entries.isEmpty
  | .sequence items => anyPopulated items
  | _ => false

/-- Whether one of the trees has entries. -/
def anyPopulated : List Tree → Bool
  | [] => false
  | item :: rest => isPopulated item || anyPopulated rest

end

mutual

/-- Equality of trees with numbers compared as a reader sees them. The order of
entries counts. -/
def same : Tree → Tree → Bool
  | .null, .null => true
  | .bool left, .bool right => left == right
  | .number left, .number right => left.same right
  | .text left, .text right => left == right
  | .sequence left, .sequence right => sameItems left right
  | .mapping left, .mapping right => sameEntries left right
  | _, _ => false

/-- Equality of sequences, item by item. -/
def sameItems : List Tree → List Tree → Bool
  | [], [] => true
  | left :: leftRest, right :: rightRest => same left right && sameItems leftRest rightRest
  | _, _ => false

/-- Equality of mappings, entry by entry. -/
def sameEntries : List (String × Tree) → List (String × Tree) → Bool
  | [], [] => true
  | (leftKey, left) :: leftRest, (rightKey, right) :: rightRest =>
      leftKey == rightKey && same left right && sameEntries leftRest rightRest
  | _, _ => false

end

mutual

/-- The tree of a JSON document. -/
def ofJson : Json → Tree
  | .null => .null
  | .bool value => .bool value
  | .number value => .number value.rebuilt
  | .string value => .text value
  | .array items => .sequence (ofJsonItems items)
  | .object members => .mapping (ofJsonMembers members)

/-- The trees of the items of a JSON array. -/
def ofJsonItems : List Json → List Tree
  | [] => []
  | item :: rest => ofJson item :: ofJsonItems rest

/-- The entries of the members of a JSON object. -/
def ofJsonMembers : List (String × Json) → List (String × Tree)
  | [] => []
  | (key, value) :: rest => (key, ofJson value) :: ofJsonMembers rest

end

end Tree

end FieldGuide
