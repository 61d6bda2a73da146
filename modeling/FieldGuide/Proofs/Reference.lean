import FieldGuide.Proofs.Example.Json
import FieldGuide.Proofs.Snippets
import FieldGuide.Reference

/-!
# Examples in field references

A field reference shows the examples of a field as JSON documents that become trees directly;
a snippet shows data that is encoded. This module shows that one document has one text in
both places.
-/

namespace FieldGuide

/-- A field that declares nothing leaves every example as it is, apart from the type key. -/
theorem View.apply_of_childless (view : View) {root : Field} (tree : Tree)
    (childless : root.children = []) (keepsType : view.options.removeTypeField = false) :
    view.apply root tree = tree := by
  rcases apply_cases root tree with ⟨entries, rfl, shows⟩ | walks
  · have undeclared (key : String) : root.lookup? key = none := by
      simp [Field.lookup?, childless]
    have all : entries.filterMap (view.shown? root) = entries.filterMap some := by
      refine List.filterMap_congr fun entry _ => ?_
      rw [shown?_of_undeclared (undeclared entry.1), ViewOptions.strips, keepsType]
      rfl
    have inOrder : entries.Pairwise fun left right => root.rank left.1 ≤ root.rank right.1 :=
      List.pairwise_of_forall fun left right => by simp [Field.rank, undeclared]
    rw [shows, shownEntries, all, List.filterMap_some, orderedBy_of_pairwise inOrder]
  · rw [walks, walk_of_childless view root.kind tree childless]

namespace Snippets

/-- A document whose objects repeat no key encodes to the tree that a field reference makes of
it, which is the tree of no other document. A configuration that declares nothing shows it with
the text that the reference gives for a field of the same name. -/
theorem ofExample_ofJson {document : Json} (distinct : document.hasDistinctKeys = true) :
    (Datum.ofJson document).toTree = .ok (Tree.ofJson document) ∧
      (∀ other, Tree.ofJson other = Tree.ofJson document → other = document) ∧
      ∀ (role : Role) (config : Field) (typeField : String), config.children = [] →
        ∃ text, ofExample role config true (.ofJson document) ⟨false, typeField⟩ =
            .ok ⟨text, text⟩ ∧
          ∀ (path : String) (info : FieldInfo),
            (ReferenceEntry.ofInfo path
              { info with name := role.name, examples := [document] }).exampleTexts = [text] := by
  have encoded := Datum.toTree_ofJson_iff.mpr distinct
  refine ⟨encoded, fun _ same => Tree.ofJson_injective same, fun role config typeField childless =>
    ⟨((Tree.ofJson document).under role.name).yaml, ?_, fun path info => rfl⟩⟩
  have unchanged (filter : Filter) :
      shownTree role config true ⟨filter, ⟨false, typeField⟩⟩ (Tree.ofJson document) =
        (Tree.ofJson document).under role.name := by
    simp [shownTree, View.apply_of_childless _ _ childless]
  rw [ofExample_of_toTree encoded, unchanged, unchanged]

/-- A document with keys that look like tags and with the greatest and the least integer. -/
def tagLike : Json := .object
  [("!ref", .object [("!", .number (.integer 18446744073709551615 (by decide)))]),
    ("", .array [.number (.integer (-9223372036854775808) (by decide)), .null])]

/-- Its keys stay keys and its integers stay integers, in the snippets and in the reference. -/
theorem ofExample_tagLike :
    (Datum.ofJson tagLike).toTree = .ok (Tree.ofJson tagLike) ∧
      ∃ text, ofExample .cache (.root []) true (.ofJson tagLike) ⟨false, "type"⟩ =
          .ok ⟨text, text⟩ ∧
        text = "cache:\n  '!ref':\n    '!': 18446744073709551615\n  '':\n  " ++
          "- -9223372036854775808\n  - null\n" := by
  obtain ⟨encoded, -, shows⟩ := @ofExample_ofJson tagLike (by decide)
  obtain ⟨text, same, -⟩ := shows .cache (.root []) "type" rfl
  refine ⟨encoded, text, same, ?_⟩
  rw [ofExample_of_toTree encoded] at same
  obtain ⟨rfl, -⟩ := Snippets.mk.inj (Except.ok.inj same)
  decide

end Snippets

end FieldGuide
