import FieldGuide.Proofs.Example.Contexts
import Mathlib.Data.List.TakeWhile

/-!
# Variants of example data

A variant with content encodes to a mapping with one entry, wherever it stands. The key of the
entry is the name of the variant without exclamation marks before it, so that exactly the names
that do not begin with one are kept.
-/

namespace FieldGuide

namespace Datum

/-- A variant with content that has a tree encodes to the one entry with this tree, under the key
of its name. -/
theorem toTree_of_content? {variant payload : Datum} {name : String} {content : Tree}
    (carries : variant.content? = some (name, payload)) (named : name ≠ "")
    (encoded : payload.toTree = .ok content) :
    variant.toTree = .ok (content.under (Draft.variantKey name)) := by
  obtain ⟨draft, described, settled⟩ := bind_eq_ok.mp encoded
  have checked : checkTag name = .ok () := if_neg (by simpa using named)
  refine bind_eq_ok.mpr ⟨.tagged name draft, ?_, bind_pure_eq_ok.mpr ⟨content, settled, rfl⟩⟩
  rw [toDraft_of_content? carries]
  exact bind_eq_ok.mpr ⟨(), checked, bind_pure_eq_ok.mpr ⟨draft, described, rfl⟩⟩

/-- Whether a variant keeps a name with its content: it encodes to the one entry with them, and
wherever it stands in an example that encodes, this entry alone fills its place, unless a later
entry with its key makes the example ignore what stands there. -/
structure KeepsName (variant : Datum) (name : String) (content : Tree) : Prop where
  alone : variant.toTree = .ok (.mapping [(name, content)])
  within : ∀ frames tree, (within frames variant).toTree = .ok tree →
    ((∃ around, Places frames around ∧ tree = Tree.within around (.mapping [(name, content)])) ↔
      ¬ Ignores frames tree)

/-- What a variant encodes to alone it encodes to everywhere. -/
theorem keepsName_iff_alone {variant : Datum} {name : String} {content : Tree} :
    KeepsName variant name content ↔ variant.toTree = .ok (.mapping [(name, content)]) := by
  refine ⟨KeepsName.alone, fun alone => ⟨alone, fun frames tree encoded => ?_⟩⟩
  constructor
  · rintro ⟨around, placed, -⟩
    exact placed.not_ignores
  · intro noticed
    obtain ⟨shown, inside, around, placed, rfl⟩ :=
      (placed_or_ignored encoded).resolve_right noticed
    obtain rfl := Except.ok.inj (inside.symm.trans alone)
    exact ⟨around, placed, rfl⟩

end Datum

namespace Draft

/-- How a tag is written: after one exclamation mark, which the tag may bring itself. -/
def writtenTag (tag : String) : List Char := '!' :: bareTag tag

/-- The key of a variant is its tag as it is written, without the exclamation marks before it. -/
theorem variantKey_eq_writtenTag (tag : String) :
    variantKey tag = .ofList ((writtenTag tag).dropWhile (· == '!')) := by
  have written : (writtenTag tag).dropWhile (· == '!') = tag.toList.dropWhile (· == '!') := by
    rw [writtenTag, bareTag]
    split
    · rename_i brought
      rw [brought]
    · rfl
  rw [variantKey, written]

/-- The key of a variant is its name when no exclamation mark begins it, and only then. -/
theorem variantKey_eq_self_iff {name : String} :
    variantKey name = name ↔ name.toList.head? ≠ some '!' := by
  rw [variantKey, ← String.toList_inj, String.toList_ofList, List.dropWhile_eq_self_iff]
  cases name.toList with
  | nil => simp
  | cons first rest => simp

end Draft

namespace Datum

/-- Every variant with a name and content that has a tree encodes, alone and at any depth, to the
one entry of this content under its name without exclamation marks before it: all of them are
taken off the written tag, not only the one that makes it a tag. So the variant keeps its name,
and the key is what the variant without content encodes to, exactly when no exclamation mark
begins the name, and two such names have different keys. -/
theorem keepsName_iff {variant payload : Datum} {name : String} {content : Tree}
    (carries : variant.content? = some (name, payload)) (named : name ≠ "")
    (encoded : payload.toTree = .ok content) :
    KeepsName variant (Draft.variantKey name) content ∧
      Draft.variantKey name = .ofList ((Draft.writtenTag name).dropWhile (· == '!')) ∧
      (KeepsName variant name content ↔ name.toList.head? ≠ some '!') ∧
      ((unitVariant name).toTree = .ok (.text (Draft.variantKey name)) ↔
        name.toList.head? ≠ some '!') ∧
      ∀ other : String, name.toList.head? ≠ some '!' → other.toList.head? ≠ some '!' →
        (Draft.variantKey other = Draft.variantKey name ↔ other = name) := by
  have alone := toTree_of_content? carries named encoded
  refine ⟨keepsName_iff_alone.mpr alone, Draft.variantKey_eq_writtenTag name, ?_, ?_, ?_⟩
  · rw [keepsName_iff_alone, alone, ← Draft.variantKey_eq_self_iff]
    simp [Tree.under]
  · rw [← Draft.variantKey_eq_self_iff, eq_comm]
    change Except.ok _ = Except.ok _ ↔ _
    simp
  · intro other kept otherKept
    rw [Draft.variantKey_eq_self_iff.mpr kept, Draft.variantKey_eq_self_iff.mpr otherKept]

/-- A variant with a field keeps its name. -/
theorem keepsName_chunker :
    (recordVariant "Chunker" [("size", .integer 10)]).content? =
        some ("Chunker", .record [("size", .integer 10)]) ∧
      "Chunker" ≠ "" ∧
      (record [("size", .integer 10)]).toTree =
        .ok (.mapping [("size", .number (.integer 10 (by decide)))]) ∧
      KeepsName (recordVariant "Chunker" [("size", .integer 10)]) "Chunker"
        (.mapping [("size", .number (.integer 10 (by decide)))]) := by
  have carries : (recordVariant "Chunker" [("size", .integer 10)]).content? =
      some ("Chunker", .record [("size", .integer 10)]) := rfl
  have named : "Chunker" ≠ "" := by decide
  have encoded : (record [("size", .integer 10)]).toTree =
      .ok (.mapping [("size", .number (.integer 10 (by decide)))]) := rfl
  exact ⟨carries, named, encoded, (keepsName_iff carries named encoded).2.2.1.mpr (by decide)⟩

/-- The name that is one exclamation mark is lost, while the variant without content keeps it.
Exclamation marks before a name make no other key. -/
theorem not_keepsName_exclamation :
    (variant "!" (.bool true)).content? = some ("!", .bool true) ∧
      (bool true).toTree = .ok (.bool true) ∧
      ¬ KeepsName (variant "!" (.bool true)) "!" (.bool true) ∧
      (variant "!" (.bool true)).toTree = .ok (.mapping [("", .bool true)]) ∧
      (unitVariant "!").toTree = .ok (.text "!") ∧
      (variant "!!a" (.bool true)).toTree = (variant "a" (.bool true)).toTree := by
  have alone : (variant "!" (.bool true)).toTree = .ok (.mapping [("", .bool true)]) := rfl
  refine ⟨rfl, rfl, fun keeps => ?_, alone, rfl, rfl⟩
  have equal := alone.symm.trans keeps.alone
  simp at equal

end Datum

end FieldGuide
