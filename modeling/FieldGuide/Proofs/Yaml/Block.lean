import FieldGuide.Proofs.Example.Tree
import FieldGuide.Proofs.Number.Text
import FieldGuide.Proofs.Yaml.Scalar
import FieldGuide.Yaml.Block

/-!
# Rows of trees

The rows of a collection are those of its parts, hung from a mark or a key. This module
describes them part by part and shows that the rows of every tree are single rows, so
that the rows of a document can be told apart in its text.
-/

namespace FieldGuide

namespace Yaml

/-- A character of a number is no break. -/
theorem isBreak_of_isNumberChar {c : Char} (ofNumber : isNumberChar c = true) :
    isBreak c = false := by
  cases breaks : isBreak c with
  | false => rfl
  | true =>
      simp only [isBreak, Bool.or_eq_true, decide_eq_true_eq] at breaks
      rcases breaks with (((rfl | rfl) | rfl) | rfl) | rfl <;> exact absurd ofNumber (by decide)

/-- The text of a key that stands on one row is the text of its rows, and these have no
break. -/
theorem unbroken_keyText (key : String) : Unbroken (keyText key) := by
  intro c member
  obtain ⟨row, rowMember, inRow⟩ := List.mem_flatMap.mp member
  exact (isWhole_of_mem_scalarRows key.toList row rowMember).text c inRow

/-- The rows of an entry are single rows when those of its value are. -/
theorem isWhole_of_mem_entryRows (key : String) (value : Tree) {valueRows : List Row}
    (whole : ∀ row ∈ valueRows, row.IsWhole) :
    ∀ row ∈ entryRows key value valueRows, row.IsWhole := by
  have keyRow : Row.IsWhole ⟨keyText key ++ [':'], '\n'⟩ :=
    Row.isWhole_of_unbroken (List.forall_mem_append.mpr ⟨unbroken_keyText key, unbroken_of_any rfl⟩)
  have keyLead : Unbroken (keyText key ++ [':', ' ']) :=
    List.forall_mem_append.mpr ⟨unbroken_keyText key, unbroken_of_any rfl⟩
  rw [entryRows]
  split
  · split
    · refine List.forall_mem_cons.mpr ⟨keyRow, ?_⟩
      exact List.forall_mem_map.mpr fun row member => (whole row member).indent
    · split
      · exact List.forall_mem_cons.mpr ⟨keyRow, whole⟩
      · exact Row.isWhole_of_mem_hang keyLead whole
  · have keyRows := isWhole_of_mem_scalarRows key.toList
    exact List.forall_mem_append.mpr ⟨Row.isWhole_of_mem_hang (unbroken_of_any rfl) keyRows,
      Row.isWhole_of_mem_hang (unbroken_of_any rfl) whole⟩

end Yaml

namespace Tree

open Yaml (Row)

/-- The rows of a sequence with items are those of its items, each hung from a dash. -/
theorem rows_sequence {items : List Tree} (filled : items ≠ []) :
    (sequence items).rows = items.flatMap fun item => Yaml.hang ['-', ' '] item.rows := by
  have ofItems (items : List Tree) :
      itemRows items = items.flatMap fun item => Yaml.hang ['-', ' '] item.rows := by
    induction items with
    | nil => rw [itemRows]; rfl
    | cons item rest inductionHypothesis =>
        rw [itemRows, inductionHypothesis, List.flatMap_cons]
  obtain ⟨item, rest, rfl⟩ := List.exists_cons_of_ne_nil filled
  rw [rows, ofItems]

/-- The rows of a mapping with entries are those of its entries. -/
theorem rows_mapping {entries : List (String × Tree)} (filled : entries ≠ []) :
    (mapping entries).rows =
      entries.flatMap fun entry => Yaml.entryRows entry.1 entry.2 entry.2.rows := by
  have ofEntries (entries : List (String × Tree)) : entriesRows entries =
      entries.flatMap fun entry => Yaml.entryRows entry.1 entry.2 entry.2.rows := by
    induction entries with
    | nil => rw [entriesRows]; rfl
    | cons entry rest inductionHypothesis =>
        rw [entriesRows, inductionHypothesis, List.flatMap_cons]
  obtain ⟨entry, rest, rfl⟩ := List.exists_cons_of_ne_nil filled
  rw [rows, ofEntries]

/-- The rows of a document that is a text are those of its scalar. -/
theorem documentRows_text (value : String) :
    (text value).documentRows = Yaml.hang [] (Yaml.scalarRows value.toList) := by
  rw [documentRows, rows]
  exact if_pos rfl

/-- The rows of a document that is a mapping with entries are those of its entries. -/
theorem documentRows_mapping {entries : List (String × Tree)} (filled : entries ≠ []) :
    (mapping entries).documentRows =
      entries.flatMap fun entry => Yaml.entryRows entry.1 entry.2 entry.2.rows := by
  obtain ⟨entry, rest, rfl⟩ := List.exists_cons_of_ne_nil filled
  rw [documentRows, if_neg (by simp [isInline, isBlockMapping]), rows_mapping filled]

/-- The rows of a tree are single rows. -/
theorem isWhole_of_mem_rows (tree : Tree) : ∀ row ∈ tree.rows, row.IsWhole := by
  induction tree with
  | null =>
      rw [rows]
      exact List.forall_mem_singleton.mpr (Row.isWhole_of_unbroken (Yaml.unbroken_of_any rfl))
  | bool value =>
      rw [rows]
      refine List.forall_mem_singleton.mpr (Row.isWhole_of_unbroken ?_)
      cases value <;> exact Yaml.unbroken_of_any rfl
  | number value =>
      rw [rows]
      exact List.forall_mem_singleton.mpr (Row.isWhole_of_unbroken fun c member =>
        Yaml.isBreak_of_isNumberChar (value.numberChars_yamlText c member))
  | text value =>
      rw [rows]
      exact Yaml.isWhole_of_mem_scalarRows value.toList
  | sequence items inductionHypothesis =>
      by_cases empty : items = []
      · rw [empty, rows]
        exact List.forall_mem_singleton.mpr (Row.isWhole_of_unbroken (Yaml.unbroken_of_any rfl))
      · rw [rows_sequence empty]
        intro row member
        obtain ⟨item, itemMember, inItem⟩ := List.mem_flatMap.mp member
        have whole := inductionHypothesis item itemMember
        exact Row.isWhole_of_mem_hang (Yaml.unbroken_of_any rfl) whole row inItem
  | mapping entries inductionHypothesis =>
      by_cases empty : entries = []
      · rw [empty, rows]
        exact List.forall_mem_singleton.mpr (Row.isWhole_of_unbroken (Yaml.unbroken_of_any rfl))
      · rw [rows_mapping empty]
        intro row member
        obtain ⟨entry, entryMember, inEntry⟩ := List.mem_flatMap.mp member
        exact Yaml.isWhole_of_mem_entryRows entry.1 entry.2
          (inductionHypothesis entry entryMember) row inEntry

/-- The rows of a document are single rows. -/
theorem isWhole_of_mem_documentRows (tree : Tree) : ∀ row ∈ tree.documentRows, row.IsWhole := by
  rw [documentRows]
  split
  · exact Row.isWhole_of_mem_hang (List.forall_mem_nil _) tree.isWhole_of_mem_rows
  · exact tree.isWhole_of_mem_rows

end Tree

end FieldGuide
