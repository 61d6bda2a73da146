import FieldGuide.Page.Reference
import FieldGuide.Proofs.Inspect.Bodies
import FieldGuide.Proofs.Text.Escapes
import FieldGuide.Proofs.Text.Fences
import Mathlib.Data.List.Forall2

/-!
# Tables of options

A field reference lists annotated options in a table, one line each. The pipes that a backslash
makes literal belong to the text of a cell and the others bound the cells, so that a line of two
cells has three of these. A pipe of a text gets a backslash before it, which is of no use when a
backslash of the text stands there already: the two make one literal backslash, and the pipe ends
the cell. This module counts the cells of each line for all texts.
-/

namespace FieldGuide.Page

/-- The number of pipes in a line that bound cells, since no backslash makes them literal. -/
def barCount (line : List Char) : Nat := (Text.marked line).count ('|', false)

/-- The cells of a line: what stands between two pipes that bound cells. -/
def cells (line : List Char) : List (List (Char × Bool)) :=
  ((Text.marked line).splitOnP (· == ('|', false))).tail.dropLast

/-- The number of pipes in a text that its own backslashes make literal. -/
def literalBars (text : String) : Nat := (Text.marked text.toList).count ('|', true)

/-- The pipes that bound cells have one cell less between them. -/
theorem length_cells (line : List Char) : (cells line).length = barCount line - 1 := by
  have parts (read : List (Char × Bool)) :
      (read.splitOnP (· == ('|', false))).length = read.count ('|', false) + 1 := by
    induction read with
    | nil => rfl
    | cons c read inductionHypothesis =>
        rw [List.splitOnP_cons_eq_if_modifyHead, List.count_cons]
        split <;> simp [*]
  rw [cells, List.length_dropLast, List.length_tail, parts, barCount, Nat.add_sub_cancel]

/-- Before a character that is neither a pipe nor a backslash, the pipes of a cell that are left
to bound cells are those that the backslashes of its text make literal. -/
theorem barCount_cell_append {c : Char} (noBar : c ≠ '|') (plain : c ≠ '\\')
    (text rest : List Char) :
    barCount (text.flatMap cellChar ++ c :: rest) =
      (Text.marked text).count ('|', true) + barCount rest := by
  simp only [barCount]
  induction text using Text.marked.induct with
  | case1 d text inductionHypothesis =>
      -- The backslash of the text makes the one before its pipe literal, and the pipe is left.
      by_cases bar : d = '|'
      · simp [cellChar, bar, Text.marked_cons, inductionHypothesis]
        omega
      · by_cases feed : d = '\n' <;> simp [cellChar, bar, feed, inductionHypothesis]
  | case2 d text single inductionHypothesis =>
      by_cases escape : d = '\\'
      · subst escape
        cases text with
        | nil => simp [cellChar, Text.marked]
        | cons e text => exact (single e text rfl rfl).elim
      · by_cases bar : d = '|'
        · simp [cellChar, bar, Text.marked_cons, inductionHypothesis]
        · by_cases feed : d = '\n' <;>
            simp [cellChar, bar, feed, escape, Text.marked_cons, inductionHypothesis]
  | case3 => simp [Text.marked_cons plain, noBar, Text.marked]

/-- The characters of a cell. -/
theorem toList_cellText (text : String) :
    (cellText text).toList = text.toList.flatMap cellChar := by
  rw [cellText, onChars, String.toList_ofList]

/-- Only the carriage returns of a text end lines in its cell: line feeds become spaces. -/
theorem any_endsLine_cellText {text : String} :
    (cellText text).toList.any Text.endsLine = false ↔ '\r' ∉ text.toList := by
  have each (c : Char) : (cellChar c).any Text.endsLine = decide (c = '\r') := by
    rw [cellChar]
    split
    · next bar => simp [bar, Text.endsLine]
    · split
      · next feed => simp [feed, Text.endsLine]
      · next noFeed => simp [Text.endsLine, noFeed]
  rw [toList_cellText, List.any_flatMap]
  simp only [each, List.any_eq_false, decide_eq_true_eq]
  exact ⟨fun absent inside => absent _ inside rfl,
    fun absent c inside same => absent (same ▸ inside)⟩

/-- No line feed is in a cell. -/
theorem newline_not_mem_cellText (text : String) : '\n' ∉ (cellText text).toList := by
  rw [toList_cellText, List.mem_flatMap]
  rintro ⟨c, -, inside⟩
  rw [cellChar] at inside
  split at inside
  · simp at inside
  · split at inside
    · simp at inside
    · next noFeed => exact noFeed (List.mem_singleton.mp inside).symm

/-- What a line of a table of options is for an option. -/
structure IsRowOf (option : String × String) (row : List Char) : Prop where
  /-- The line is written for the option. -/
  written : (optionRow option).toList = row ++ ['\n']
  /-- Besides its own three pipes, those bound cells that a backslash made literal before. -/
  bars : barCount row = 3 + (literalBars option.1 + literalBars option.2)
  /-- The line has no line end of Markdown in it when its texts have no carriage return. -/
  oneLine : row.any Text.endsLine = false ↔ '\r' ∉ option.1.toList ∧ '\r' ∉ option.2.toList

/-- The line of an option, without its end. -/
def rowLine (option : String × String) : List Char :=
  '|' :: ' ' :: '\x60' :: ((cellText option.1).toList ++
    '\x60' :: ' ' :: '|' :: ' ' :: ((cellText option.2).toList ++ [' ', '|']))

/-- The line of an option is a row for it. -/
theorem isRowOf_rowLine (option : String × String) : IsRowOf option (rowLine option) where
  written := by simp [optionRow, rowLine]
  bars := by
    have start (rest : List Char) :
        barCount ('|' :: ' ' :: '\x60' :: rest) = 1 + barCount rest := by
      simp [barCount, Text.marked_cons, Nat.add_comm]
    have middle (rest : List Char) : barCount (' ' :: '|' :: ' ' :: rest) = 1 + barCount rest := by
      simp [barCount, Text.marked_cons, Nat.add_comm]
    have ending : barCount ['|'] = 1 := by decide
    rw [rowLine, start, toList_cellText, barCount_cell_append (by decide) (by decide), middle,
      toList_cellText, barCount_cell_append (by decide) (by decide), ending]
    simp only [literalBars]
    omega
  oneLine := by
    have bar : Text.endsLine '|' = false := rfl
    have space : Text.endsLine ' ' = false := rfl
    have backtick : Text.endsLine '\x60' = false := rfl
    have texts : (rowLine option).any Text.endsLine =
        ((cellText option.1).toList.any Text.endsLine ||
          (cellText option.2).toList.any Text.endsLine) := by
      simp only [rowLine, List.any_cons, List.any_append, List.any_nil, bar, space, backtick,
        Bool.false_or, Bool.or_false]
    rw [texts, Bool.or_eq_false_iff, any_endsLine_cellText, any_endsLine_cellText]

/-- The line of an option goes on to its line feed. -/
theorem ended_rowLine (option : String × String) :
    '\n' ∉ rowLine option ∧ (rowLine option).getLast? ≠ some '\r' := by
  constructor
  · simp [rowLine, newline_not_mem_cellText]
  · simp [rowLine, List.getLast?_cons, List.getLast?_append]

/-- The two lines at the head of a table of options. -/
def tableHead : List (List Char) := ["| Option | Summary |".toList, "|---|---|".toList]

/-- A field with annotated options has a table of them, with an empty line after it. -/
theorem toList_optionsText {field : Field} (annotated : field.annotatedOptions ≠ []) :
    (optionsText field).toList =
      Inspect.unlines (tableHead ++ field.annotatedOptions.map rowLine ++ [[]]) := by
  have rows : (String.join (field.annotatedOptions.map optionRow)).toList =
      Inspect.unlines (field.annotatedOptions.map rowLine) := by
    rw [String.toList_join, Inspect.unlines, List.flatMap_map, List.flatMap_map]
    exact List.flatMap_congr fun option _ => (isRowOf_rowLine option).written
  have filled : (!field.annotatedOptions.isEmpty) = true := by simpa using annotated
  rw [optionsText, if_pos filled, String.toList_append, String.toList_append, rows,
    Inspect.unlines_append, Inspect.unlines_append]
  rfl

/-- Whether a text ends with a line feed. -/
def IsEnded (text : String) : Prop := text.toList.getLast? = some '\n'

/-- What ends with a line feed does so after any text. -/
theorem IsEnded.after {text : String} (ended : IsEnded text) (start : String) :
    IsEnded (start ++ text) := by
  rw [IsEnded, String.toList_append, List.getLast?_append, ended, Option.some_or]

/-- A text that ends with a line feed does so before nothing and before another such text. -/
theorem IsEnded.append {text more : String} (ended : IsEnded text)
    (moreEnded : more = "" ∨ IsEnded more) : IsEnded (text ++ more) := by
  rcases moreEnded with rfl | moreEnded
  · rwa [String.append_empty]
  · exact moreEnded.after text

/-- The options of an entry stand after a line feed. -/
theorem exists_referenceItem (entry : ReferenceEntry) :
    ∃ before after, (referenceItem entry).toList =
      before ++ '\n' :: ((optionsText entry.field).toList ++ after) := by
  have split (head table after : String) (ended : IsEnded head) :
      ∃ before rest, (head ++ table ++ after).toList =
        before ++ '\n' :: (table.toList ++ rest) := by
    obtain ⟨before, same⟩ := List.getLast?_eq_some_iff.mp ended
    exact ⟨before, after.toList, by simp [same]⟩
  have quoted : IsEnded "`\n\n" := rfl
  have required : IsEnded " or newer\n\n" := rfl
  -- The type stands right before the options, or the default or the version does.
  refine split _ (optionsText entry.field) _ (.append (.append (quoted.after _) ?default) ?version)
  case default =>
    cases entry.defaultText with
    | none => exact .inl rfl
    | some text => exact .inr (quoted.after _)
  case version =>
    split
    · exact .inl rfl
    · exact .inr (required.after _)

/-- The options of an entry that are annotated are written as a table with one line for each, in
order, and an empty line after it, and these lines are lines of the entry. All lines of options
have two cells exactly when no text of an option has a pipe that its own backslashes make
literal. -/
theorem optionTable_rows {entry : ReferenceEntry} (annotated : entry.field.annotatedOptions ≠ []) :
    ∃ rows earlier later,
      (optionsText entry.field).toList = Inspect.unlines (tableHead ++ rows ++ [[]]) ∧
      Text.lines (referenceItem entry).toList = earlier ++ (tableHead ++ rows ++ [[]]) ++ later ∧
      List.Forall₂ IsRowOf entry.field.annotatedOptions rows ∧
      ((∀ row ∈ rows, barCount row = 3 ∧ (cells row).length = 2) ↔
        ∀ option ∈ entry.field.annotatedOptions,
          literalBars option.1 = 0 ∧ literalBars option.2 = 0) := by
  obtain ⟨before, after, written⟩ := exists_referenceItem entry
  have single : ∀ line ∈ tableHead ++ entry.field.annotatedOptions.map rowLine ++ [[]],
      '\n' ∉ line ∧ line.getLast? ≠ some '\r' := by
    simp only [List.forall_mem_append, List.forall_mem_map, List.forall_mem_singleton]
    exact ⟨⟨by decide, fun option _ => ended_rowLine option⟩, by decide⟩
  refine ⟨entry.field.annotatedOptions.map rowLine, Text.lines (before ++ ['\n']),
    Text.lines after, toList_optionsText annotated, ?_, ?_, ?_⟩
  · rw [written, Text.lines_append_ended, toList_optionsText annotated,
      Inspect.lines_unlines_append single, ← List.append_assoc]
  · rw [List.forall₂_map_right_iff, List.forall₂_same]
    exact fun option _ => isRowOf_rowLine option
  · rw [List.forall_mem_map]
    refine forall₂_congr fun option _ => ?_
    rw [length_cells, (isRowOf_rowLine option).bars]
    omega

/-- The entry of a field with annotated options. -/
def annotatedEntry (options : List (String × String)) : ReferenceEntry :=
  .ofInfo "" { name := "mode", annotatedOptions := options }

/-- Options with pipes and line feeds in their texts, and with two backslashes before a pipe. -/
def pipedOptions : List (String × String) :=
  [("fan_out", "To all | at once."), ("a\\\\|b", "One.\nTwo.")]

/-- Pipes, line feeds and an even number of backslashes before a pipe leave two cells. -/
theorem optionTable_pipedOptions :
    (annotatedEntry pipedOptions).field.annotatedOptions ≠ [] ∧
      ∃ rows earlier later,
        Text.lines (referenceItem (annotatedEntry pipedOptions)).toList =
          earlier ++ (tableHead ++ rows ++ [[]]) ++ later ∧
        rows.length = 2 ∧ ∀ row ∈ rows, barCount row = 3 ∧ (cells row).length = 2 := by
  have annotated : (annotatedEntry pipedOptions).field.annotatedOptions ≠ [] :=
    List.cons_ne_nil _ _
  obtain ⟨rows, earlier, later, -, lines, each, exactly⟩ := optionTable_rows annotated
  refine ⟨annotated, rows, earlier, later, lines, each.length_eq.symm, exactly.mpr ?_⟩
  decide

/-- A backslash before a pipe of a text makes a third cell. -/
theorem optionTable_backslash :
    "| `a\\\\|b` | One. |".toList ∈
        Text.lines (referenceItem (annotatedEntry [("a\\|b", "One.")])).toList ∧
      barCount "| `a\\\\|b` | One. |".toList = 4 ∧
      (cells "| `a\\\\|b` | One. |".toList).length = 3 := by
  decide

end FieldGuide.Page
