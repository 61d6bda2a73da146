import FieldGuide.Proofs.Example.Datum
import FieldGuide.Proofs.Json.Parts

/-!
# Trees of JSON documents

A JSON document becomes a tree in two ways: directly, as for the examples of a field
reference, or as data that is encoded, as for the snippets. This module shows that the two
agree on every document whose objects repeat no key, and only there, and that the tree they
make of it is the tree of no other document.
-/

namespace FieldGuide

/-- A number is what it is to the machine. -/
theorem Number.rebuilt_eq (number : Number) : number.rebuilt = number := by
  cases number with
  | integer value fits =>
      obtain ⟨lower, upper⟩ := fits
      by_cases unsigned : 0 ≤ value
      · have word : ((UInt64.ofNat value.toNat).toNat : Int) = value := by
          rw [UInt64.toNat_ofNat_of_lt' (by rw [UInt64.size]; omega)]
          omega
        simp only [rebuilt, unsigned?, unsigned, if_true, Option.map_some, Option.some_or,
          Option.getD_some, word]
      · have word : (Int64.ofInt value).toInt = value :=
          Int64.toInt_ofInt_of_le lower (by omega)
        have below : value < 9223372036854775808 := by omega
        simp only [rebuilt, unsigned?, signed?, unsigned, below, if_true, if_false,
          Option.map_none, Option.map_some, Option.none_or, Option.getD_some, word]
  | float value => rfl

namespace Json

mutual

/-- The document that a tree is the tree of. -/
def ofTree : Tree → Json
  | .null => .null
  | .bool value => .bool value
  | .number value => .number value
  | .text value => .string value
  | .sequence items => .array (ofTrees items)
  | .mapping entries => .object (ofTreeEntries entries)

/-- The documents that trees are the trees of. -/
def ofTrees : List Tree → List Json
  | [] => []
  | item :: rest => ofTree item :: ofTrees rest

/-- The members that entries are the entries of. -/
def ofTreeEntries : List (String × Tree) → List (String × Json)
  | [] => []
  | (key, value) :: rest => (key, ofTree value) :: ofTreeEntries rest

end

mutual

/-- The tree of a document is the tree of no other one. -/
theorem ofTree_ofJson : ∀ document : Json, ofTree (Tree.ofJson document) = document
  | .null | .bool _ | .string _ => rfl
  | .number value => by rw [Tree.ofJson, ofTree, value.rebuilt_eq]
  | .array items => by rw [Tree.ofJson, ofTree, ofTrees_ofJsonItems items]
  | .object members => by rw [Tree.ofJson, ofTree, ofTreeEntries_ofJsonMembers members]

/-- The trees of documents are the trees of no other ones. -/
theorem ofTrees_ofJsonItems : ∀ items : List Json, ofTrees (Tree.ofJsonItems items) = items
  | [] => rfl
  | item :: rest => by
      rw [Tree.ofJsonItems, ofTrees, ofTree_ofJson item, ofTrees_ofJsonItems rest]

/-- The entries of an object are the entries of no other one. -/
theorem ofTreeEntries_ofJsonMembers : ∀ members : List (String × Json),
    ofTreeEntries (Tree.ofJsonMembers members) = members
  | [] => rfl
  | (key, value) :: rest => by
      rw [Tree.ofJsonMembers, ofTreeEntries, ofTree_ofJson value,
        ofTreeEntries_ofJsonMembers rest]

end

end Json

namespace Tree

/-- Documents with the same tree are the same. -/
theorem ofJson_injective : Function.Injective ofJson :=
  Function.LeftInverse.injective Json.ofTree_ofJson

/-- The entries of an object have the keys of its members. -/
theorem keys_ofJsonMembers (members : List (String × Json)) :
    (ofJsonMembers members).map Prod.fst = members.map Prod.fst := by
  induction members with
  | nil => rfl
  | cons member rest inductionHypothesis =>
      rw [ofJsonMembers, List.map_cons, List.map_cons, inductionHypothesis]

mutual

/-- The tree of a document repeats a key where the document does. -/
theorem hasDistinctKeys_ofJson : ∀ document : Json,
    (ofJson document).hasDistinctKeys = document.hasDistinctKeys
  | .null | .bool _ | .number _ | .string _ => rfl
  | .array items => allHaveDistinctKeys_ofJsonItems items
  | .object members => by
      rw [ofJson, hasDistinctKeys, Json.hasDistinctKeys, keys_ofJsonMembers,
        valuesHaveDistinctKeys_ofJsonMembers members]

/-- The trees of documents repeat a key where the documents do. -/
theorem allHaveDistinctKeys_ofJsonItems : ∀ items : List Json,
    allHaveDistinctKeys (ofJsonItems items) = Json.allHaveDistinctKeys items
  | [] => rfl
  | item :: rest => by
      rw [ofJsonItems, allHaveDistinctKeys, Json.allHaveDistinctKeys, hasDistinctKeys_ofJson item,
        allHaveDistinctKeys_ofJsonItems rest]

/-- The values of entries repeat a key where those of the members do. -/
theorem valuesHaveDistinctKeys_ofJsonMembers : ∀ members : List (String × Json),
    valuesHaveDistinctKeys (ofJsonMembers members) = Json.valuesHaveDistinctKeys members
  | [] => rfl
  | (key, value) :: rest => by
      rw [ofJsonMembers, valuesHaveDistinctKeys, Json.valuesHaveDistinctKeys,
        hasDistinctKeys_ofJson value, valuesHaveDistinctKeys_ofJsonMembers rest]

end

end Tree

namespace Datum

mutual

/-- The tree of a document describes itself as the document does. -/
theorem ofTree_ofJson : ∀ document : Json, ofTree (Tree.ofJson document) = ofJson document
  | .null | .bool _ | .string _ => rfl
  | .number value => by rw [Tree.ofJson, value.rebuilt_eq, ofTree, ofJson]
  | .array items => by rw [Tree.ofJson, ofTree, ofJson, ofTrees_ofJsonItems items]
  | .object members => by rw [Tree.ofJson, ofTree, ofJson, ofTreeEntries_ofJsonMembers members]

/-- The trees of documents describe themselves as the documents do. -/
theorem ofTrees_ofJsonItems : ∀ items : List Json,
    ofTrees (Tree.ofJsonItems items) = ofJsonItems items
  | [] => rfl
  | item :: rest => by
      rw [Tree.ofJsonItems, ofTrees, ofJsonItems, ofTree_ofJson item, ofTrees_ofJsonItems rest]

/-- The entries of an object describe themselves as its members do. -/
theorem ofTreeEntries_ofJsonMembers : ∀ members : List (String × Json),
    ofTreeEntries (Tree.ofJsonMembers members) = ofJsonMembers members
  | [] => rfl
  | (key, value) :: rest => by
      rw [Tree.ofJsonMembers, ofTreeEntries, ofJsonMembers, ofTree_ofJson value,
        ofTreeEntries_ofJsonMembers rest]

end

/-- A document encodes to its tree when its keys are distinct, and only then. -/
theorem toTree_ofJson_iff {document : Json} :
    (ofJson document).toTree = .ok (Tree.ofJson document) ↔ document.hasDistinctKeys = true := by
  rw [← ofTree_ofJson, toTree_ofTree_iff, Tree.hasDistinctKeys_ofJson]

end Datum

end FieldGuide
