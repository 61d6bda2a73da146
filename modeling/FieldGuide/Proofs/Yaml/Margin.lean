import FieldGuide.Proofs.Text.Fences
import FieldGuide.Proofs.Yaml.Block

/-!
# Rows at the margin

A row closes a fenced block around the document only if it is a line of its own and stands
at the margin. Marks, keys and quotes keep all rows from that except those of literal
blocks, and these stand two columns from what they hang from: the margin is theirs only
when that is the document, an item of its sequence, or an entry of its mapping. This
module names the texts that stand there and shows that a document closes a block exactly
when one of these texts does.
-/

namespace FieldGuide

open Text (markdownLines closesFence OffMargin)

namespace Yaml

/-- Whether one of some rows is a line that passes a test. Rows that a separator ends go on
with the next row; `start` tells whether the first row starts a line. -/
def anyLine (test : List Char → Bool) : (start : Bool) → List Row → Bool
  | _, [] => false
  | start, row :: rest =>
      (start && row.ending = '\n' && test row.text) || anyLine test (row.ending = '\n') rest

section AnyLine

variable {test : List Char → Bool}

/-- Rows that fail a test have no line that passes it. -/
theorem anyLine_of_forall {rows : List Row} (fails : ∀ row ∈ rows, test row.text = false)
    (start : Bool) : anyLine test start rows = false := by
  induction rows generalizing start with
  | nil => rfl
  | cons row rest inductionHypothesis =>
      obtain ⟨first, others⟩ := List.forall_mem_cons.mp fails
      rw [anyLine, first, inductionHypothesis others, Bool.and_false, Bool.or_false]

/-- A first row that fails a test may be passed over. -/
theorem anyLine_cons {row : Row} (fails : test row.text = false) (start : Bool)
    (rest : List Row) :
    anyLine test start (row :: rest) = anyLine test (row.ending = '\n') rest := by
  rw [anyLine, fails, Bool.and_false, Bool.false_or]

/-- Rows after others can be looked at on their own when the first of them fails the
test, whether it starts a line or not. -/
theorem anyLine_append {rows others : List Row}
    (fails : ∀ row ∈ others.head?, test row.text = false) (start : Bool) :
    anyLine test start (rows ++ others) =
      (anyLine test start rows || anyLine test true others) := by
  induction rows generalizing start with
  | nil =>
      cases others with
      | nil => rfl
      | cons row rest =>
          rw [List.nil_append, anyLine_cons (fails row rfl), anyLine_cons (fails row rfl)]
          rfl
  | cons row rest inductionHypothesis =>
      rw [List.cons_append, anyLine, inductionHypothesis, anyLine, Bool.or_assoc]

/-- Rows of several parts can be looked at part by part when the first of each part fails
the test. -/
theorem anyLine_flatMap {α : Type} {parts : List α} {rowsOf : α → List Row}
    (fails : ∀ part ∈ parts, ∀ row ∈ (rowsOf part).head?, test row.text = false) :
    anyLine test true (parts.flatMap rowsOf) =
      parts.any fun part => anyLine test true (rowsOf part) := by
  induction parts with
  | nil => rfl
  | cons part rest inductionHypothesis =>
      obtain ⟨first, others⟩ := List.forall_mem_cons.mp fails
      have headFails : ∀ row ∈ (rest.flatMap rowsOf).head?, test row.text = false := by
        intro row member
        obtain ⟨next, nextMember, inNext⟩ := List.exists_of_findSome?_eq_some
          (List.head?_flatMap.symm.trans member)
        exact others next nextMember row inNext
      rw [List.flatMap_cons, anyLine_append headFails, inductionHypothesis others, List.any_cons]

/-- The lines of single rows are those rows that are lines, when the empty line and lines
with separators fail the test. Rows that go on after a separator have no first line. -/
theorem any_markdownLines {rows : List Row} (whole : ∀ row ∈ rows, row.IsWhole)
    (empty : test [] = false)
    (separated : ∀ line : List Char, line.any isSeparator = true → test line = false) :
    (markdownLines (rows.flatMap Row.chars)).any test = anyLine test true rows ∧
      ∀ line : List Char, (∀ c ∈ line, Text.endsLine c = false) → line.any isSeparator = true →
        (markdownLines (line ++ rows.flatMap Row.chars)).any test = anyLine test false rows := by
  induction rows with
  | nil =>
      refine ⟨by simp [markdownLines, anyLine, empty], fun line unended separator => ?_⟩
      rw [List.flatMap_nil, List.append_nil, markdownLines, List.splitOnP_eq_singleton unended]
      simp [anyLine, separated line separator]
  | cons row rest inductionHypothesis =>
      obtain ⟨first, others⟩ := List.forall_mem_cons.mp whole
      obtain ⟨atStart, inside⟩ := inductionHypothesis others
      have textUnended : ∀ c ∈ row.text, Text.endsLine c = false := by
        intro c member
        have feedless : c ≠ '\n' := fun same => first.noFeed (same ▸ member)
        have returnless : c ≠ '\r' := fun same => first.noReturn (same ▸ member)
        simp [Text.endsLine, feedless, returnless]
      -- The end of the row ends the line, or the other rows go on with it.
      have goesOn {line : List Char} (unended : ∀ c ∈ line, Text.endsLine c = false) :
          (markdownLines (line ++ row.ending :: rest.flatMap Row.chars)).any test =
            ((row.ending = '\n' && test line) || anyLine test (row.ending = '\n') rest) := by
        rcases first.ending with feed | separator
        · rw [feed, markdownLines, List.splitOnP_append_cons_of_forall_mem unended '\n' rfl,
            List.any_cons]
          simpa [markdownLines] using congrArg (test line || ·) atStart
        · have notFeed := ne_newline_of_isSeparator separator
          have endingUnended : Text.endsLine row.ending = false := by
            simp [Text.endsLine, notFeed, first.ending_ne_return]
          have continued := inside (line ++ [row.ending])
            (List.forall_mem_append.mpr ⟨unended, List.forall_mem_singleton.mpr endingUnended⟩)
            (by simp [separator])
          rw [List.append_assoc, List.singleton_append] at continued
          simpa [notFeed] using continued
      rw [List.flatMap_cons, Row.chars, List.append_assoc, List.singleton_append]
      refine ⟨goesOn textUnended, fun line unended separator => ?_⟩
      have continued := goesOn (List.forall_mem_append.mpr ⟨unended, textUnended⟩)
      have mixed : (line ++ row.text).any isSeparator = true := by simp [separator]
      rw [List.append_assoc, separated _ mixed, Bool.and_false, Bool.false_or] at continued
      rw [continued, anyLine, Bool.false_and, Bool.false_and, Bool.false_or]

end AnyLine

/-- A line with a separator closes no block. -/
theorem closesFence_of_separator {line : List Char} (separator : line.any isSeparator = true) :
    closesFence line = false := by
  rw [Bool.eq_false_iff]
  intro closes
  obtain ⟨c, member, separates⟩ := List.any_eq_true.mp separator
  rcases Text.mem_of_closesFence closes c member with rfl | rfl | rfl <;> cases separates

/-- Whether a line closes a fenced block when it is moved by two columns. -/
def closesMoved (line : List Char) : Bool := closesFence (' ' :: ' ' :: line)

/-- A moved row closes a block when its text does after two spaces, also if it is empty and
stays so. -/
theorem closesFence_indent (row : Row) : closesFence row.indent.text = closesMoved row.text := by
  by_cases empty : row.text = []
  · rw [Row.text_indent_of_empty empty, empty]
    decide
  · rw [Row.text_indent empty, closesMoved]

/-- Moved rows have a line that closes a block when a line of theirs does once it is moved. -/
theorem anyLine_map_indent (start : Bool) (rows : List Row) :
    anyLine closesFence start (rows.map Row.indent) = anyLine closesMoved start rows := by
  induction rows generalizing start with
  | nil => rfl
  | cons row rest inductionHypothesis =>
      rw [List.map_cons, anyLine, anyLine, closesFence_indent, Row.ending_indent,
        inductionHypothesis]

/-- Whether the literal block of a text closes a fenced block when it stands two columns
from the margin. -/
def holdsFence (text : String) : Bool :=
  Style.ofText text.toList = .literal &&
    (markdownLines text.toList).any closesMoved

section Scalars

variable {text : List Char}

/-- The first row of a scalar starts with a visible character that is no backtick. -/
theorem exists_scalarRows (text : List Char) :
    ∃ c start ending rest, scalarRows text = ⟨c :: start, ending⟩ :: rest ∧
      Text.startsFence c = false := by
  rw [scalarRows]
  cases style : Style.ofText text with
  | plain =>
      cases text with
      | nil => exact absurd style (by decide)
      | cons c rest =>
          have allowed := allowsPlain_of_style style
          simp only [allowsPlain, Bool.and_eq_true, Bool.not_eq_true', startsConstruct] at allowed
          have noSpace := allowed.1.1.1.1.2
          have noConstruct := allowed.1.1.2
          have space : c ≠ ' ' := by
            rintro rfl
            cases noSpace
          have backtick : c ≠ '\x60' := by
            rintro rfl
            simp at noConstruct
          exact ⟨c, rest, '\n', [], rfl, by simp [Text.startsFence, space, backtick]⟩
  | single =>
      have quoted : breakRows (singleQuoted text) ≠ [] ∧
          ∀ row ∈ (breakRows (singleQuoted text)).head?, row.text.head? = some '\x27' := by
        rw [singleQuoted, List.cons_append, breakRows, if_neg (by decide)]
        split <;> simp
      obtain ⟨⟨start, ending⟩, rest, split⟩ := List.exists_cons_of_ne_nil quoted.1
      have quote := quoted.2 ⟨start, ending⟩ (by rw [split]; rfl)
      obtain ⟨start, rfl⟩ := List.head?_eq_some_iff.mp quote
      exact ⟨_, start, ending, rest, split, rfl⟩
  | double => exact ⟨_, _, _, _, rfl, rfl⟩
  | literal => exact ⟨_, _, _, _, rfl, rfl⟩

/-- The text of a key that stands on one row is off the margin. -/
theorem offMargin_keyText (key : String) : OffMargin (keyText key) := by
  obtain ⟨c, start, ending, rest, rows, visible⟩ := exists_scalarRows key.toList
  rw [keyText, rows, List.flatMap_cons, List.cons_append]
  exact OffMargin.cons visible _

/-- Without line feeds, no row after the first is a line. -/
theorem anyLine_breakRows_of_no_feed (test : List Char → Bool) (noFeed : '\n' ∉ text) :
    anyLine test false (breakRows text) = false := by
  induction text with
  | nil => rfl
  | cons c rest inductionHypothesis =>
      rw [List.mem_cons, not_or] at noFeed
      have others := inductionHypothesis noFeed.2
      have notFeed : c ≠ '\n' := Ne.symm noFeed.1
      rw [breakRows]
      split
      · simpa [anyLine, notFeed] using others
      · split
        · rfl
        · next row later split =>
            rw [split] at others
            simpa [anyLine] using others

/-- Of a literal block two columns from the margin, a row closes a fenced block exactly
when a line of the text does. -/
theorem anyLine_indent_breakRows (printable : ∀ c ∈ text, isPrintable c = true) :
    anyLine closesFence true ((breakRows text).map Row.indent) =
      (markdownLines text).any closesMoved := by
  have separated (line : List Char) (separator : line.any isSeparator = true) :
      closesMoved line = false :=
    closesFence_of_separator (by simp [separator])
  have lines := (any_markdownLines (isWhole_of_mem_breakRows printable) (by decide) separated).1
  rw [anyLine_map_indent, ← lines]
  rcases flatMap_chars_breakRows text with same | ended
  · rw [same]
  · rw [ended]
    exact Text.any_markdownLines_append_feed (by decide) text

/-- The rows of a scalar that hangs from a lead close a fenced block exactly when its
text holds a fence. -/
theorem anyLine_hang_scalarRows {lead : List Char} (off : OffMargin lead) (text : String) :
    anyLine closesFence true (hang lead (scalarRows text.toList)) = holdsFence text := by
  obtain ⟨c, start, ending, rest, rows, visible⟩ := exists_scalarRows text.toList
  have headFails : closesFence (lead ++ c :: start) = false :=
    Text.closesFence_of_offMargin (off.append (OffMargin.cons visible start))
  rw [rows, hang, anyLine_cons headFails, holdsFence]
  rw [scalarRows] at rows
  cases style : Style.ofText text.toList with
  | plain | double =>
      rw [style] at rows
      obtain ⟨-, rfl⟩ := List.cons.inj rows
      rfl
  | single =>
      rw [style] at rows
      dsimp only at rows
      have noFeed : '\n' ∉ singleQuoted text.toList := by
        intro member
        have textFeedless : ∀ c ∈ text.toList, c ≠ '\n' :=
          fun c member same => (allowsSingle_of_style style).1 (same ▸ member)
        exact forall_mem_singleQuoted (· ≠ '\n') (by decide) textFeedless '\n' member rfl
      have noLine := anyLine_breakRows_of_no_feed closesMoved noFeed
      rw [rows, anyLine, Bool.false_and, Bool.false_and, Bool.false_or] at noLine
      rw [anyLine_map_indent, noLine]
      rfl
  | literal =>
      rw [style] at rows
      obtain ⟨head, rfl⟩ := List.cons.inj rows
      have feed : ending = '\n' := (congrArg Row.ending head).symm
      rw [feed]
      exact anyLine_indent_breakRows (printable_of_allowsLiteral (allowsLiteral_of_style style).2)

end Scalars

/-- A row off the margin closes no block when it is moved. -/
theorem closesMoved_of_offMargin {line : List Char} (off : OffMargin line) :
    closesMoved line = false :=
  Text.closesFence_cons_space (Text.closesFence_cons_space (Text.closesFence_of_offMargin off))

/-- A row that was moved closes no block when it is moved again. -/
theorem closesMoved_indent (row : Row) : closesMoved row.indent.text = false := by
  by_cases empty : row.text = []
  · rw [Row.text_indent_of_empty empty]
    decide
  · rw [Row.text_indent empty, closesMoved]
    exact Text.closesFence_four_spaces row.text

section Hang

variable {lead : List Char} (off : ∀ text, OffMargin (lead ++ text))
include off

/-- The first row that hangs from a visible lead is off the margin. -/
theorem offMargin_of_mem_head_hang (rows : List Row) :
    ∀ row ∈ (hang lead rows).head?, OffMargin row.text := by
  cases rows with
  | nil => exact fun row member => by cases member
  | cons first rest =>
      rintro _ ⟨⟩
      exact off first.text

/-- Rows that hang from a visible lead close no block when they are moved. -/
theorem closesMoved_of_mem_hang (rows : List Row) :
    ∀ row ∈ hang lead rows, closesMoved row.text = false := by
  cases rows with
  | nil => exact List.forall_mem_nil _
  | cons first rest =>
      refine List.forall_mem_cons.mpr ⟨closesMoved_of_offMargin (off first.text), ?_⟩
      exact List.forall_mem_map.mpr fun row _ => closesMoved_indent row

/-- Rows that hang from a visible lead close no block if they do not when they are moved. -/
theorem anyLine_hang_of_clear {rows : List Row}
    (clear : ∀ row ∈ rows, closesMoved row.text = false) :
    anyLine closesFence true (hang lead rows) = false := by
  cases rows with
  | nil => rfl
  | cons first rest =>
      have others := (List.forall_mem_cons.mp clear).2
      rw [hang, anyLine_cons (Text.closesFence_of_offMargin (off first.text)), anyLine_map_indent]
      exact anyLine_of_forall others _

end Hang

/-- The mark of an item keeps what follows it off the margin. -/
theorem offMargin_mark (mark : Char) (visible : Text.startsFence mark = false)
    (text : List Char) : OffMargin ([mark, ' '] ++ text) :=
  OffMargin.cons visible _

/-- A key that has its row to itself is off the margin. -/
theorem offMargin_keyRow (key : String) : OffMargin (keyText key ++ [':']) :=
  (offMargin_keyText key).append (OffMargin.cons rfl [])

/-- A key keeps what follows it off the margin. -/
theorem offMargin_keyLead (key : String) (text : List Char) :
    OffMargin (keyText key ++ [':', ' '] ++ text) := by
  rw [List.append_assoc]
  exact (offMargin_keyText key).append (OffMargin.cons rfl _)

end Yaml

namespace Tree

open Yaml (holdsFence closesMoved anyLine hang)

/-- The text of a text scalar. -/
def ownTexts : Tree → List String
  | .text value => [value]
  | _ => []

/-- The texts whose literal blocks stand two columns from the rows of a scalar or a
sequence. -/
def columnTexts : Tree → List String
  | .text value => [value]
  | .sequence items => items.flatMap ownTexts
  | _ => []

/-- The texts whose literal blocks stand two columns from an entry's key. A sequence below
a key that stands on one row starts in the column of the key. -/
def entryTexts (key : String) (value : Tree) : List String :=
  if Yaml.isSimpleKey key then value.columnTexts else key :: value.ownTexts

/-- The texts whose literal blocks stand two columns from the margin of a document. -/
def marginTexts : Tree → List String
  | .mapping entries => entries.flatMap fun entry => entryTexts entry.1 entry.2
  | tree => tree.columnTexts

/-- A tree that is written inline and is no text has one row, which is off the margin. -/
theorem exists_rows_of_inline {tree : Tree} (inline : tree.isInline = true)
    (noText : tree.ownTexts = []) : ∃ row, tree.rows = [row] ∧ OffMargin row.text := by
  cases tree with
  | text value => cases noText
  | null =>
      rw [rows]
      exact ⟨_, rfl, OffMargin.cons rfl _⟩
  | bool value =>
      rw [rows]
      cases value <;> exact ⟨_, rfl, OffMargin.cons rfl _⟩
  | number value =>
      rw [rows]
      refine ⟨_, rfl, fun c member => ?_⟩
      have ofNumber := value.numberChars_yamlText c (List.mem_of_mem_head? member)
      rw [Bool.eq_false_iff]
      intro margin
      simp only [Text.startsFence, Bool.or_eq_true, decide_eq_true_eq] at margin
      rcases margin with rfl | rfl <;> cases ofNumber
  | sequence items =>
      cases items with
      | nil =>
          rw [rows]
          exact ⟨_, rfl, OffMargin.cons rfl _⟩
      | cons item rest => cases inline
  | mapping entries =>
      cases entries with
      | nil =>
          rw [rows]
          exact ⟨_, rfl, OffMargin.cons rfl _⟩
      | cons entry rest => cases inline

/-- The rows of a sequence with items close no block when they are moved. -/
theorem closesMoved_of_mem_rows_sequence {items : List Tree} (filled : items ≠ []) :
    ∀ row ∈ (sequence items).rows, closesMoved row.text = false := by
  rw [rows_sequence filled]
  intro row member
  obtain ⟨item, -, inItem⟩ := List.mem_flatMap.mp member
  exact Yaml.closesMoved_of_mem_hang (Yaml.offMargin_mark '-' rfl) _ row inItem

/-- The rows of an entry close no block when they are moved. -/
theorem closesMoved_of_mem_entryRows (key : String) (value : Tree) :
    ∀ row ∈ Yaml.entryRows key value value.rows, closesMoved row.text = false := by
  have keyRow := Yaml.closesMoved_of_offMargin (Yaml.offMargin_keyRow key)
  rw [Yaml.entryRows]
  split
  · split
    · refine List.forall_mem_cons.mpr ⟨keyRow, ?_⟩
      exact List.forall_mem_map.mpr fun row _ => Yaml.closesMoved_indent row
    · split
      · next block =>
          refine List.forall_mem_cons.mpr ⟨keyRow, ?_⟩
          cases value with
          | sequence items =>
              refine closesMoved_of_mem_rows_sequence ?_
              rintro rfl
              cases block
          | null | bool value | number value | text value | mapping entries => cases block
      · exact Yaml.closesMoved_of_mem_hang (Yaml.offMargin_keyLead key) value.rows
  · exact List.forall_mem_append.mpr
      ⟨Yaml.closesMoved_of_mem_hang (Yaml.offMargin_mark '?' rfl) _,
        Yaml.closesMoved_of_mem_hang (Yaml.offMargin_mark ':' rfl) _⟩

/-- The rows of a tree that is no text close no block when they are moved. -/
theorem closesMoved_of_mem_rows {tree : Tree} (noText : tree.ownTexts = []) :
    ∀ row ∈ tree.rows, closesMoved row.text = false := by
  by_cases inline : tree.isInline = true
  · obtain ⟨row, single, off⟩ := exists_rows_of_inline inline noText
    rw [single]
    exact List.forall_mem_singleton.mpr (Yaml.closesMoved_of_offMargin off)
  · cases tree with
    | null | bool value | number value | text value => exact absurd rfl inline
    | sequence items =>
        refine closesMoved_of_mem_rows_sequence ?_
        rintro rfl
        exact inline rfl
    | mapping entries =>
        have filled : entries ≠ [] := by
          rintro rfl
          exact inline rfl
        rw [rows_mapping filled]
        intro row member
        obtain ⟨entry, -, inEntry⟩ := List.mem_flatMap.mp member
        exact closesMoved_of_mem_entryRows entry.1 entry.2 row inEntry

/-- The rows of a tree that hangs from a visible lead close a block exactly when the tree
is a text that holds a fence. -/
theorem anyLine_hang_rows {lead : List Char} (off : ∀ text, OffMargin (lead ++ text))
    (tree : Tree) :
    anyLine closesFence true (hang lead tree.rows) = tree.ownTexts.any holdsFence := by
  have leadOff : OffMargin lead := by simpa using off []
  cases tree with
  | text value =>
      rw [rows, Yaml.anyLine_hang_scalarRows leadOff]
      simp [ownTexts]
  | null | bool value | number value | sequence items | mapping entries =>
      exact Yaml.anyLine_hang_of_clear off (closesMoved_of_mem_rows rfl)

/-- The rows of a sequence with items close a block exactly when one of its items is a text
that holds a fence. -/
theorem anyLine_rows_sequence {items : List Tree} (filled : items ≠ []) :
    anyLine closesFence true (sequence items).rows =
      (sequence items).columnTexts.any holdsFence := by
  have mark := Yaml.offMargin_mark '-' rfl
  have headFails : ∀ item ∈ items, ∀ row ∈ (hang ['-', ' '] item.rows).head?,
      closesFence row.text = false := fun item _ row member =>
    Text.closesFence_of_offMargin (Yaml.offMargin_of_mem_head_hang mark item.rows row member)
  rw [rows_sequence filled, Yaml.anyLine_flatMap headFails, columnTexts, List.any_flatMap]
  exact congrArg items.any (funext fun item => anyLine_hang_rows mark item)

/-- The first row of an entry is off the margin. -/
theorem offMargin_of_mem_head_entryRows (key : String) (value : Tree) :
    ∀ row ∈ (Yaml.entryRows key value value.rows).head?, OffMargin row.text := by
  rw [Yaml.entryRows]
  split
  · split
    · rintro _ ⟨⟩
      exact Yaml.offMargin_keyRow key
    · split
      · rintro _ ⟨⟩
        exact Yaml.offMargin_keyRow key
      · exact Yaml.offMargin_of_mem_head_hang (Yaml.offMargin_keyLead key) value.rows
  · obtain ⟨c, start, ending, rest, split, -⟩ := Yaml.exists_scalarRows key.toList
    rw [split, hang, List.cons_append]
    rintro _ ⟨⟩
    exact OffMargin.cons rfl _

/-- The rows of an entry close a block exactly when a text of the entry does. -/
theorem anyLine_entryRows (key : String) (value : Tree) :
    anyLine closesFence true (Yaml.entryRows key value value.rows) =
      (entryTexts key value).any holdsFence := by
  have keyRow := Text.closesFence_of_offMargin (Yaml.offMargin_keyRow key)
  rw [Yaml.entryRows, entryTexts]
  split
  · split
    · next block =>
        rw [Yaml.anyLine_cons keyRow, Yaml.anyLine_map_indent]
        cases value with
        | mapping entries => exact Yaml.anyLine_of_forall (closesMoved_of_mem_rows rfl) true
        | null | bool value | number value | text value | sequence items => cases block
    · split
      · next block =>
          rw [Yaml.anyLine_cons keyRow]
          cases value with
          | sequence items =>
              have filled : items ≠ [] := by
                rintro rfl
                cases block
              exact anyLine_rows_sequence filled
          | null | bool value | number value | text value | mapping entries => cases block
      · next bare =>
          rw [anyLine_hang_rows (Yaml.offMargin_keyLead key)]
          cases value with
          | sequence items =>
              cases items with
              | nil => rfl
              | cons item rest => exact absurd rfl bare
          | null | bool value | number value | text value | mapping entries => rfl
  · have keyMark := Yaml.offMargin_mark '?' rfl
    have valueMark := Yaml.offMargin_mark ':' rfl
    have headFails : ∀ row ∈ (hang [':', ' '] value.rows).head?, closesFence row.text = false :=
      fun row member =>
        Text.closesFence_of_offMargin (Yaml.offMargin_of_mem_head_hang valueMark _ row member)
    rw [Yaml.anyLine_append headFails, anyLine_hang_rows valueMark,
      Yaml.anyLine_hang_scalarRows (by simpa using keyMark []), List.any_cons]

/-- A document closes a fenced block around it exactly when one of the texts at its margin
holds a fence. -/
theorem anyLine_documentRows (tree : Tree) :
    anyLine closesFence true tree.documentRows = tree.marginTexts.any holdsFence := by
  have ofInline {tree : Tree} (inline : tree.isInline = true) (noText : tree.ownTexts = []) :
      anyLine closesFence true tree.documentRows = false := by
    obtain ⟨row, single, off⟩ := exists_rows_of_inline inline noText
    rw [documentRows, if_pos inline, single]
    exact Yaml.anyLine_of_forall
      (List.forall_mem_singleton.mpr (Text.closesFence_of_offMargin off)) true
  cases tree with
  | null | bool value | number value => exact ofInline rfl rfl
  | text value =>
      rw [documentRows_text, Yaml.anyLine_hang_scalarRows OffMargin.nil]
      simp [marginTexts, columnTexts]
  | sequence items =>
      cases items with
      | nil => exact ofInline rfl rfl
      | cons item rest => exact anyLine_rows_sequence (List.cons_ne_nil _ _)
  | mapping entries =>
      cases entries with
      | nil => exact ofInline rfl rfl
      | cons entry rest =>
          rw [documentRows_mapping (List.cons_ne_nil _ _), Yaml.anyLine_flatMap, marginTexts,
            List.any_flatMap]
          · exact congrArg _ (funext fun entry => anyLine_entryRows entry.1 entry.2)
          · exact fun entry _ row member => Text.closesFence_of_offMargin
              (offMargin_of_mem_head_entryRows entry.1 entry.2 row member)

/-- A line of a YAML text closes a fenced block around it exactly when one of the texts at
its margin holds a fence. -/
theorem any_closesFence_yaml (tree : Tree) :
    (markdownLines tree.yaml.toList).any closesFence = tree.marginTexts.any holdsFence := by
  have lines := (Yaml.any_markdownLines tree.isWhole_of_mem_documentRows Text.closesFence_nil
    fun line => Yaml.closesFence_of_separator).1
  rw [yaml, String.toList_ofList, lines, anyLine_documentRows]

end Tree

end FieldGuide
