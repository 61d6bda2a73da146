import FieldGuide.Page.Text
import FieldGuide.Proofs.Inspect.Bodies
import FieldGuide.Proofs.Yaml.Extent

/-!
# Lines of documents

A document is written as rows, and read as lines. Its lines are its rows put together at the
separators, so that no line starts with a backtick: marks, keys and quotes stand before the
first row of every part, and spaces before the others. The last line may lack its line feed:
this module finds that it does exactly when the last value is a literal block that ends with
a separator.
-/

namespace FieldGuide

namespace Yaml

/-! ## Starts of lines -/

/-- Whether a text does not start with a backtick. -/
abbrev Unticked (text : List Char) : Prop := text.head? ≠ some '\x60'

/-- A text off the margin does not start with a backtick. -/
theorem unticked_of_offMargin {text : List Char} (off : Text.OffMargin text) : Unticked text := by
  intro tick
  cases off _ tick

/-- A moved row does not start with a backtick: it starts with a space, or is empty. -/
theorem unticked_indent (row : Row) : Unticked row.indent.text := by
  by_cases empty : row.text = []
  · rw [Row.text_indent_of_empty empty]
    decide
  · rw [Row.text_indent empty]
    rintro ⟨⟩

/-- What follows a text without a backtick at its start is not at the start, unless the text is
empty. -/
theorem Unticked.append {text rest : List Char} (left : Unticked text) (right : Unticked rest) :
    Unticked (text ++ rest) := by
  cases text with
  | nil => exact right
  | cons c text => exact left

/-- A line that does not start with a backtick is no fence. -/
theorem Unticked.not_fence {line : List Char} (unticked : Unticked line) :
    Inspect.fence.isPrefixOf line = false := by
  cases line with
  | nil => rfl
  | cons c line =>
      have visible : c ≠ '\x60' := fun tick => unticked (congrArg some tick)
      simp [Inspect.fence, List.isPrefixOf, Ne.symm visible]

/-- Rows that hang from a lead do not start with a backtick when the first of them does not. -/
theorem unticked_of_mem_hang {lead : List Char} {rows : List Row}
    (first : ∀ row ∈ rows.head?, Unticked (lead ++ row.text)) :
    ∀ row ∈ hang lead rows, Unticked row.text := by
  cases rows with
  | nil => exact List.forall_mem_nil _
  | cons row rest =>
      refine List.forall_mem_cons.mpr ⟨first row rfl, ?_⟩
      exact List.forall_mem_map.mpr fun row _ => unticked_indent row

/-- The text of some rows is written line by line, up to what stands behind its last line feed.
What holds of the rows holds of the lines when it is kept where a separator makes a row go on. -/
theorem exists_lines_and_rest (holds : List Char → Prop) (empty : holds [])
    (goesOn : ∀ {text rest : List Char} {separator : Char}, isSeparator separator = true →
      holds text → holds rest → holds (text ++ separator :: rest))
    {rows : List Row} (whole : ∀ row ∈ rows, row.IsWhole) (each : ∀ row ∈ rows, holds row.text) :
    ∃ lines rest, rows.flatMap Row.chars = Inspect.unlines lines ++ rest ∧
      ∀ line ∈ rest :: lines, Inspect.IsLine line ∧ holds line := by
  induction rows with
  | nil => exact ⟨[], [], rfl, List.forall_mem_singleton.mpr ⟨Inspect.isLine_nil, empty⟩⟩
  | cons row rows inductionHypothesis =>
      obtain ⟨rowWhole, restWhole⟩ := List.forall_mem_cons.mp whole
      obtain ⟨rowHolds, restHolds⟩ := List.forall_mem_cons.mp each
      obtain ⟨lines, rest, written, known⟩ := inductionHypothesis restWhole restHolds
      obtain ⟨restKnown, linesKnown⟩ := List.forall_mem_cons.mp known
      have rowKnown : Inspect.IsLine row.text ∧ holds row.text :=
        ⟨⟨rowWhole.noFeed, rowWhole.noReturn⟩, rowHolds⟩
      rw [List.flatMap_cons, Row.chars, written, List.append_assoc, List.singleton_append]
      rcases rowWhole.ending with feed | separator
      · refine ⟨row.text :: lines, rest, ?_, ?_⟩
        · rw [feed, Inspect.unlines_cons, List.append_assoc, List.cons_append]
        · exact List.forall_mem_cons.mpr
            ⟨restKnown, List.forall_mem_cons.mpr ⟨rowKnown, linesKnown⟩⟩
      · have joined {line : List Char} (known : Inspect.IsLine line ∧ holds line) :
            Inspect.IsLine (row.text ++ row.ending :: line) ∧
              holds (row.text ++ row.ending :: line) := by
          refine ⟨⟨?_, ?_⟩, goesOn separator rowHolds known.2⟩
          · simp [rowWhole.noFeed, known.1.noFeed, (ne_newline_of_isSeparator separator).symm]
          · simp [rowWhole.noReturn, known.1.noReturn, rowWhole.ending_ne_return.symm]
        -- The row goes on with the first of the other lines, or with what is left of them.
        cases lines with
        | nil =>
            exact ⟨[], row.text ++ row.ending :: rest, by simp [Inspect.unlines],
              List.forall_mem_singleton.mpr (joined restKnown)⟩
        | cons line others =>
            obtain ⟨lineKnown, othersKnown⟩ := List.forall_mem_cons.mp linesKnown
            refine ⟨(row.text ++ row.ending :: line) :: others, rest, ?_, ?_⟩
            · simp [Inspect.unlines_cons]
            · exact List.forall_mem_cons.mpr ⟨restKnown,
                List.forall_mem_cons.mpr ⟨joined lineKnown, othersKnown⟩⟩

/-- Nothing is left behind the lines of a text exactly when it is empty or ends with a line
feed. -/
theorem eq_nil_iff_of_unlines_append {text rest : List Char} {lines : List (List Char)}
    (written : text = Inspect.unlines lines ++ rest) (single : Inspect.IsLine rest) :
    rest = [] ↔ text = [] ∨ text.getLast? = some '\n' := by
  subst written
  constructor
  · rintro rfl
    rcases List.eq_nil_or_concat lines with rfl | ⟨before, last, rfl⟩
    · exact .inl rfl
    · exact .inr (by simp [Inspect.unlines])
  · intro ends
    by_contra filled
    rw [List.getLast?_append_of_ne_nil _ filled] at ends
    rcases ends with empty | feed
    · exact filled (List.append_eq_nil_iff.mp empty).2
    · exact single.noFeed (List.mem_of_getLast? feed)

/-- The text of some rows, its last line ended, is written line by line, and no line starts
with a backtick when no row does. -/
theorem exists_lines {rows : List Row} (whole : ∀ row ∈ rows, row.IsWhole)
    (unticked : ∀ row ∈ rows, Unticked row.text) :
    ∃ lines, (Page.lineEnded (.ofList (rows.flatMap Row.chars))).toList = Inspect.unlines lines ∧
      ∀ line ∈ lines, Inspect.IsLine line ∧ Unticked line := by
  have noTick {separator : Char} (separates : isSeparator separator = true) (rest : List Char) :
      Unticked (separator :: rest) := by
    rintro tick
    obtain rfl := Option.some.inj tick
    cases separates
  obtain ⟨lines, rest, written, known⟩ := exists_lines_and_rest Unticked (by decide)
    (fun separates start _ => start.append (noTick separates _)) whole unticked
  have ended := eq_nil_iff_of_unlines_append written (List.forall_mem_cons.mp known).1.1
  rw [Page.lineEnded, Page.onChars, String.toList_ofList, String.toList_ofList]
  by_cases last : (rows.flatMap Row.chars).getLast? = some '\n'
  · obtain rfl := ended.mpr (.inr last)
    refine ⟨lines, ?_, (List.forall_mem_cons.mp known).2⟩
    rw [if_pos last, written, List.append_nil]
  · refine ⟨lines ++ [rest], ?_, fun line member => known line (by simpa [or_comm] using member)⟩
    rw [if_neg last, written, Inspect.unlines_append, List.append_assoc]
    simp [Inspect.unlines]

/-! ## Ends of documents -/

/-- Whether a text is written as a literal block without a line feed at its end. -/
def endsOpen (text : String) : Bool :=
  Style.ofText text.toList = .literal && text.toList.getLast?.any isSeparator

/-- Moved rows have the endings of the rows. -/
theorem map_ending_indent (rows : List Row) :
    (rows.map Row.indent).map Row.ending = rows.map Row.ending := by
  rw [List.map_map]
  exact List.map_congr_left fun row _ => Row.ending_indent row

/-- Rows that hang from a lead have the endings of the rows. -/
theorem map_ending_hang (lead : List Char) (rows : List Row) :
    (hang lead rows).map Row.ending = rows.map Row.ending := by
  cases rows with
  | nil => rfl
  | cons first rest => rw [hang, List.map_cons, List.map_cons, map_ending_indent]

/-- The last character of some rows is the ending of the last of them. -/
theorem getLast?_flatMap_chars (rows : List Row) :
    (rows.flatMap Row.chars).getLast? = (rows.map Row.ending).getLast? := by
  rcases List.eq_nil_or_concat rows with rfl | ⟨before, last, rfl⟩
  · rfl
  · simp [Row.chars]

/-- The last of the rows of a text ends with the break at the end of the text, if there is
one. -/
theorem getLast?_ending_breakRows {text : List Char} (filled : text ≠ []) :
    ((breakRows text).map Row.ending).getLast? =
      text.getLast?.map fun c => if isBreak c then c else '\n' := by
  induction text with
  | nil => exact absurd rfl filled
  | cons c rest inductionHypothesis =>
      by_cases last : rest = []
      · subst last
        by_cases breaks : isBreak c = true <;> simp [breakRows, breaks]
      · have later := inductionHypothesis last
        rw [List.getLast?_cons_of_ne_nil last, ← later, breakRows]
        cases split : breakRows rest with
        | nil => simp [split, last] at later
        | cons row others => split <;> simp [List.getLast?_cons_cons]

/-- The rows of a scalar end with a line feed unless the scalar ends open. -/
theorem getLast?_ending_scalarRows (text : String) :
    ((scalarRows text.toList).map Row.ending).getLast? = some '\n' ↔ endsOpen text = false := by
  rw [scalarRows, endsOpen]
  cases style : Style.ofText text.toList with
  | plain | double => simp
  | single =>
      have filled : singleQuoted text.toList ≠ [] := List.cons_ne_nil _ _
      have quoted : (singleQuoted text.toList).getLast? = some '\x27' := List.getLast?_concat ..
      simp [getLast?_ending_breakRows filled, quoted, isBreak]
  | literal =>
      obtain ⟨feed, allowed⟩ := allowsLiteral_of_style style
      have filled : text.toList ≠ [] := List.ne_nil_of_mem feed
      obtain ⟨c, last⟩ := List.getLast?_isSome.mpr filled |> Option.isSome_iff_exists.mp
      have printable := printable_of_allowsLiteral allowed c (List.mem_of_getLast? last)
      have ends := getLast?_ending_breakRows filled
      have rowsFilled : (breakRows text.toList).map Row.ending ≠ [] := by
        intro empty
        simp [empty, last] at ends
      simp only [List.map_cons, List.getLast?_cons_of_ne_nil rowsFilled, ends, last,
        Option.map_some, Option.some.injEq, Option.any_some, decide_true, Bool.true_and]
      by_cases breaks : isBreak c = true
      · rcases newline_or_isSeparator breaks printable with rfl | separator
        · simp [isSeparator]
        · simp [breaks, separator, ne_newline_of_isSeparator separator]
      · have noSeparator : isSeparator c = false :=
          Bool.eq_false_iff.mpr fun separator => breaks (isBreak_of_isSeparator separator)
        simp [breaks, noSeparator]

/-- The rows of an entry end like those of its value. -/
theorem getLast?_ending_entryRows (key : String) (value : Tree) {rows : List Row}
    (filled : rows ≠ []) :
    ((entryRows key value rows).map Row.ending).getLast? = (rows.map Row.ending).getLast? := by
  have endings : rows.map Row.ending ≠ [] := by simpa using filled
  rw [entryRows]
  split
  · split
    · rw [List.map_cons, map_ending_indent, List.getLast?_cons_of_ne_nil endings]
    · split
      · rw [List.map_cons, List.getLast?_cons_of_ne_nil endings]
      · rw [map_ending_hang]
  · rw [List.map_append, map_ending_hang, map_ending_hang, List.getLast?_append_of_ne_nil _ endings]

end Yaml

namespace Tree

open Yaml (Row Unticked hang)

/-- The rows of a sequence with items do not start with a backtick. -/
theorem unticked_of_mem_rows_sequence {items : List Tree} (filled : items ≠ []) :
    ∀ row ∈ (sequence items).rows, Unticked row.text := by
  rw [rows_sequence filled]
  intro row member
  obtain ⟨item, -, inItem⟩ := List.mem_flatMap.mp member
  refine Yaml.unticked_of_mem_hang (fun first _ => ?_) row inItem
  exact Yaml.unticked_of_offMargin (Yaml.offMargin_mark '-' rfl first.text)

/-- The rows of an entry do not start with a backtick. -/
theorem unticked_of_mem_entryRows (key : String) (value : Tree) :
    ∀ row ∈ Yaml.entryRows key value value.rows, Unticked row.text := by
  have keyRow := Yaml.unticked_of_offMargin (Yaml.offMargin_keyRow key)
  rw [Yaml.entryRows]
  split
  · split
    · refine List.forall_mem_cons.mpr ⟨keyRow, ?_⟩
      exact List.forall_mem_map.mpr fun row _ => Yaml.unticked_indent row
    · split
      · next block =>
          refine List.forall_mem_cons.mpr ⟨keyRow, ?_⟩
          cases value with
          | sequence items =>
              refine unticked_of_mem_rows_sequence ?_
              rintro rfl
              cases block
          | null | bool value | number value | text value | mapping entries => cases block
      · exact Yaml.unticked_of_mem_hang fun row _ =>
          Yaml.unticked_of_offMargin (Yaml.offMargin_keyLead key row.text)
  · refine List.forall_mem_append.mpr ⟨?_, ?_⟩
    · exact Yaml.unticked_of_mem_hang fun row _ =>
        Yaml.unticked_of_offMargin (Yaml.offMargin_mark '?' rfl row.text)
    · exact Yaml.unticked_of_mem_hang fun row _ =>
        Yaml.unticked_of_offMargin (Yaml.offMargin_mark ':' rfl row.text)

/-- The rows of a document do not start with a backtick. -/
theorem unticked_of_mem_documentRows (tree : Tree) :
    ∀ row ∈ tree.documentRows, Unticked row.text := by
  have ofInline {tree : Tree} (inline : tree.isInline = true) (noText : tree.ownTexts = []) :
      ∀ row ∈ tree.documentRows, Unticked row.text := by
    obtain ⟨row, single, off⟩ := exists_rows_of_inline inline noText
    rw [documentRows, if_pos inline, single]
    exact List.forall_mem_singleton.mpr (Yaml.unticked_of_offMargin off)
  cases tree with
  | null | bool value | number value => exact ofInline rfl rfl
  | text value =>
      obtain ⟨c, start, ending, rest, split, visible⟩ := Yaml.exists_scalarRows value.toList
      rw [documentRows_text]
      refine Yaml.unticked_of_mem_hang fun row member => ?_
      rw [split] at member
      obtain rfl := Option.some.inj member
      exact Yaml.unticked_of_offMargin (.cons visible start)
  | sequence items =>
      cases items with
      | nil => exact ofInline rfl rfl
      | cons item rest => exact unticked_of_mem_rows_sequence (List.cons_ne_nil _ _)
  | mapping entries =>
      cases entries with
      | nil => exact ofInline rfl rfl
      | cons entry rest =>
          rw [documentRows_mapping (List.cons_ne_nil _ _)]
          intro row member
          obtain ⟨entry, -, inEntry⟩ := List.mem_flatMap.mp member
          exact unticked_of_mem_entryRows entry.1 entry.2 row inEntry

mutual

/-- The text that stands last in a tree, if the value there is a text. -/
def lastText? : Tree → Option String
  | .text value => some value
  | .sequence items => lastItemText? items
  | .mapping entries => lastValueText? entries
  | _ => none

/-- The text that stands last in the last of some items. -/
def lastItemText? : List Tree → Option String
  | [] => none
  | item :: rest => if rest.isEmpty then lastText? item else lastItemText? rest

/-- The text that stands last in the value of the last of some entries. -/
def lastValueText? : List (String × Tree) → Option String
  | [] => none
  | (_, value) :: rest => if rest.isEmpty then lastText? value else lastValueText? rest

end

/-- The text that stands last in a sequence stands last in its last item. -/
theorem lastItemText?_concat (items : List Tree) (last : Tree) :
    lastItemText? (items ++ [last]) = last.lastText? := by
  induction items with
  | nil => simp [lastItemText?]
  | cons item rest inductionHypothesis => simp [lastItemText?, inductionHypothesis]

/-- The text that stands last in a mapping stands last in its last value. -/
theorem lastValueText?_concat (entries : List (String × Tree)) (last : String × Tree) :
    lastValueText? (entries ++ [last]) = last.2.lastText? := by
  induction entries with
  | nil => simp [lastValueText?]
  | cons entry rest inductionHypothesis => simp [lastValueText?, inductionHypothesis]

/-- The rows of a tree end with a line feed unless the text that stands last in the tree ends
open. -/
theorem getLast?_ending_rows (tree : Tree) :
    (tree.rows.map Row.ending).getLast? = some '\n' ↔
      tree.lastText?.any Yaml.endsOpen = false := by
  induction tree with
  | null | bool value | number value => simp [rows, lastText?]
  | text value =>
      rw [rows, lastText?, Yaml.getLast?_ending_scalarRows]
      rfl
  | sequence items inductionHypothesis =>
      rcases List.eq_nil_or_concat items with rfl | ⟨before, last, rfl⟩
      · simp [rows, lastText?, lastItemText?]
      · have filled : last.rows.map Row.ending ≠ [] := by
          obtain ⟨first, rest, same, -⟩ := opens_rows last
          simp [same]
        rw [List.concat_eq_append] at inductionHypothesis ⊢
        rw [lastText?, lastItemText?_concat, ← inductionHypothesis last (by simp),
          rows_sequence (by simp), List.flatMap_append, List.flatMap_singleton, List.map_append,
          Yaml.map_ending_hang, List.getLast?_append_of_ne_nil _ filled]
  | mapping entries inductionHypothesis =>
      rcases List.eq_nil_or_concat entries with rfl | ⟨before, last, rfl⟩
      · simp [rows, lastText?, lastValueText?]
      · have filled : last.2.rows ≠ [] := by
          obtain ⟨first, rest, same, -⟩ := opens_rows last.2
          simp [same]
        have ends := Yaml.getLast?_ending_entryRows last.1 last.2 filled
        have entryFilled :
            (Yaml.entryRows last.1 last.2 last.2.rows).map Row.ending ≠ [] := by
          obtain ⟨first, rest, same, -⟩ := Yaml.opens_entryRows last.1 last.2 (opens_rows last.2)
          simp [same]
        rw [List.concat_eq_append] at inductionHypothesis ⊢
        rw [lastText?, lastValueText?_concat, ← inductionHypothesis last (by simp),
          rows_mapping (by simp), List.flatMap_append, List.flatMap_singleton, List.map_append,
          List.getLast?_append_of_ne_nil _ entryFilled, ends]

/-- The text of a tree ends with a line feed unless the text that stands last in the tree ends
open. -/
theorem getLast?_yaml (tree : Tree) :
    tree.yaml.toList.getLast? = some '\n' ↔ tree.lastText?.any Yaml.endsOpen = false := by
  have endings : tree.documentRows.map Row.ending = tree.rows.map Row.ending := by
    rw [documentRows]
    split
    · exact Yaml.map_ending_hang [] tree.rows
    · rfl
  rw [yaml, String.toList_ofList, Yaml.getLast?_flatMap_chars, endings, getLast?_ending_rows]

end Tree

end FieldGuide
