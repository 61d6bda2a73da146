import FieldGuide.Example.Tree
import FieldGuide.Json.Writer
import FieldGuide.Yaml.Scalar

/-!
# Block-style YAML

This module writes a tree as block-style YAML. Nested mappings are indented by
two columns, and a sequence below a key starts in the key's own column. A tree is
written as rows; collections build their rows from those of their parts.
-/

namespace FieldGuide

namespace Tree

/-- Whether a tree is a mapping with entries. -/
def isBlockMapping : Tree → Bool
  | .mapping (_ :: _) => true
  | _ => false

/-- Whether a tree is a sequence with items. -/
def isBlockSequence : Tree → Bool
  | .sequence (_ :: _) => true
  | _ => false

/-- Whether a tree is written without rows of its own for its parts. -/
def isInline (tree : Tree) : Bool := !tree.isBlockMapping && !tree.isBlockSequence

end Tree

namespace Yaml

/-- Whether a key can stand on one row with its colon: it has no break and at
most 128 bytes. -/
def isSimpleKey (key : String) : Bool :=
  !key.toList.any isBreak && key.utf8ByteSize ≤ 128

/-- The text of a key that stands on one row. -/
def keyText (key : String) : List Char := (scalarRows key.toList).flatMap Row.text

/-- The rows of a mapping's entry, given the rows of its value. -/
def entryRows (key : String) (value : Tree) (valueRows : List Row) : List Row :=
  if isSimpleKey key then
    if value.isBlockMapping then
      ⟨keyText key ++ [':'], '\n'⟩ :: valueRows.map Row.indent
    else if value.isBlockSequence then
      ⟨keyText key ++ [':'], '\n'⟩ :: valueRows
    else hang (keyText key ++ [':', ' ']) valueRows
  else hang ['?', ' '] (scalarRows key.toList) ++ hang [':', ' '] valueRows

end Yaml

namespace Tree

open Yaml (Row)

mutual

/-- The rows of a tree. -/
def rows : Tree → List Row
  | .null => [⟨"null".toList, '\n'⟩]
  | .bool value => [⟨Json.boolText value, '\n'⟩]
  | .number value => [⟨value.yamlText, '\n'⟩]
  | .text value => Yaml.scalarRows value.toList
  | .sequence [] => [⟨['[', ']'], '\n'⟩]
  | .sequence (item :: rest) => itemRows (item :: rest)
  | .mapping [] => [⟨['\x7b', '\x7d'], '\n'⟩]
  | .mapping (entry :: rest) => entriesRows (entry :: rest)

/-- The rows of the items of a sequence. -/
def itemRows : List Tree → List Row
  | [] => []
  | item :: rest => Yaml.hang ['-', ' '] (rows item) ++ itemRows rest

/-- The rows of the entries of a mapping. -/
def entriesRows : List (String × Tree) → List Row
  | [] => []
  | (key, value) :: rest => Yaml.entryRows key value (rows value) ++ entriesRows rest

end

/-- The rows of a document. A scalar's further rows are indented under its
first. -/
def documentRows (tree : Tree) : List Row :=
  if tree.isInline then Yaml.hang [] tree.rows else tree.rows

/-- The YAML text of a tree. -/
def yaml (tree : Tree) : String := .ofList (tree.documentRows.flatMap Row.chars)

end Tree

end FieldGuide
