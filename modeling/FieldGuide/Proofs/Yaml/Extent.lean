import FieldGuide.Proofs.View.Inclusion
import FieldGuide.Proofs.Yaml.Margin

/-!
# How long a text is

A part of a tree lacks entries of the tree, so that its text should be shorter. This module
measures rows by their characters, and by how many of them have text: those are the rows
that get longer when something else comes to stand around them. Both measures of a part are
at most those of the tree, at every depth, and the text of a part is as long as the text of
the tree only when nothing is missing.
-/

namespace FieldGuide

namespace Yaml

/-- The number of characters of some rows, with their endings. -/
def extent (rows : List Row) : Nat := (rows.flatMap Row.chars).length

/-- The number of rows that have text. -/
def filledCount (rows : List Row) : Nat := rows.countP fun row => !row.text.isEmpty

section Measures

/-- A row takes its text and its ending. -/
@[simp]
theorem extent_cons (row : Row) (rest : List Row) :
    extent (row :: rest) = row.text.length + 1 + extent rest := by
  rw [extent, List.flatMap_cons, List.length_append, Row.chars, List.length_append]
  rfl

/-- No rows take nothing. -/
@[simp]
theorem extent_nil : extent [] = 0 := rfl

/-- No rows have no text. -/
@[simp]
theorem filledCount_nil : filledCount [] = 0 := rfl

/-- Rows after others add their characters. -/
@[simp]
theorem extent_append (rows others : List Row) :
    extent (rows ++ others) = extent rows + extent others := by
  simp [extent]

/-- Rows after others add those of them that have text. -/
@[simp]
theorem filledCount_append (rows others : List Row) :
    filledCount (rows ++ others) = filledCount rows + filledCount others :=
  List.countP_append

/-- A row counts when it has text. -/
@[simp]
theorem filledCount_cons (row : Row) (rest : List Row) :
    filledCount (row :: rest) = filledCount rest + if row.text.isEmpty then 0 else 1 := by
  cases empty : row.text.isEmpty <;> simp [filledCount, empty]

/-- Moving rows adds two characters to each that has text. -/
theorem extent_map_indent (rows : List Row) :
    extent (rows.map Row.indent) = extent rows + 2 * filledCount rows := by
  induction rows with
  | nil => rfl
  | cons row rest inductionHypothesis =>
      rw [List.map_cons, extent_cons, extent_cons, filledCount_cons, inductionHypothesis]
      by_cases empty : row.text = []
      · rw [Row.text_indent_of_empty empty, empty]
        simp
        omega
      · rw [Row.text_indent empty]
        simp [empty]
        omega

/-- Moving rows leaves their text in place. -/
theorem filledCount_map_indent (rows : List Row) :
    filledCount (rows.map Row.indent) = filledCount rows := by
  induction rows with
  | nil => rfl
  | cons row rest inductionHypothesis =>
      rw [List.map_cons, filledCount_cons, filledCount_cons, inductionHypothesis]
      by_cases empty : row.text = []
      · rw [Row.text_indent_of_empty empty, empty]
      · rw [Row.text_indent empty]
        simp [empty]

end Measures

/-- Whether some rows start with one that has text. -/
def Opens (rows : List Row) : Prop := ∃ first rest, rows = first :: rest ∧ first.text ≠ []

namespace Opens

variable {rows : List Row} (opens : Opens rows)
include opens

/-- Rows that start with text have a row with text. -/
theorem filledCount_pos : 0 < filledCount rows := by
  obtain ⟨first, rest, rfl, filled⟩ := opens
  simp [filled]

/-- Rows that start with text have two characters at least. -/
theorem two_le_extent : 2 ≤ extent rows := by
  obtain ⟨first, rest, rfl, filled⟩ := opens
  have visible := List.length_pos_of_ne_nil filled
  rw [extent_cons]
  omega

/-- Hung rows start with text. -/
theorem hang (lead : List Char) : Opens (Yaml.hang lead rows) := by
  obtain ⟨first, rest, rfl, filled⟩ := opens
  exact ⟨_, _, rfl, by simp [filled]⟩

/-- Rows before others still start with text. -/
theorem append (others : List Row) : Opens (rows ++ others) := by
  obtain ⟨first, rest, rfl, filled⟩ := opens
  exact ⟨first, rest ++ others, rfl, filled⟩

/-- Rows hung from a lead take the lead and two characters for each further row with
text. -/
theorem extent_hang (lead : List Char) :
    extent (Yaml.hang lead rows) + 2 = lead.length + extent rows + 2 * filledCount rows := by
  obtain ⟨first, rest, rfl, filled⟩ := opens
  rw [Yaml.hang, extent_cons, extent_cons, extent_map_indent, filledCount_cons]
  simp [filled]
  omega

/-- Hung rows have text where the rows have. -/
theorem filledCount_hang (lead : List Char) :
    filledCount (Yaml.hang lead rows) = filledCount rows := by
  obtain ⟨first, rest, rfl, filled⟩ := opens
  rw [Yaml.hang, filledCount_cons, filledCount_cons, filledCount_map_indent]
  simp [filled]

end Opens

/-- The rows of a text scalar start with text. -/
theorem opens_scalarRows (text : List Char) : Opens (scalarRows text) := by
  obtain ⟨c, start, ending, rest, rows, -⟩ := exists_scalarRows text
  exact ⟨_, _, rows, List.cons_ne_nil _ _⟩

/-- The rows of an entry start with text when those of its value do. -/
theorem opens_entryRows (key : String) (value : Tree) {rows : List Row} (opens : Opens rows) :
    Opens (entryRows key value rows) := by
  rw [entryRows]
  split
  · split
    · exact ⟨_, _, rfl, by simp⟩
    · split
      · exact ⟨_, _, rfl, by simp⟩
      · exact opens.hang _
  · exact ((opens_scalarRows key.toList).hang _).append _

/-- The rows of an entry take four characters at least, more than braces without entries. -/
theorem four_le_extent_entryRows (key : String) (value : Tree) {rows : List Row}
    (opens : Opens rows) : 4 ≤ extent (entryRows key value rows) := by
  have taken := opens.two_le_extent
  have filled := opens.filledCount_pos
  have four_le_hang {lead : List Char} (mark : 2 ≤ lead.length) {hung : List Row}
      (hungOpens : Opens hung) : 4 ≤ extent (hang lead hung) := by
    have hungExtent := hungOpens.extent_hang lead
    have hungTaken := hungOpens.two_le_extent
    have hungFilled := hungOpens.filledCount_pos
    omega
  rw [entryRows]
  split
  · split
    · rw [extent_cons, extent_map_indent, List.length_append, List.length_singleton]
      omega
    · split
      · rw [extent_cons, List.length_append, List.length_singleton]
        omega
      · exact four_le_hang (by simp) opens
  · rw [extent_append]
    exact Nat.le_add_right_of_le (four_le_hang (by simp) (opens_scalarRows key.toList))

/-- Whether the rows of a value take no more room than those of another one: they have at most
as many rows with text and at most as many characters, and as many only if the values are the
same. -/
structure FitsIn {α : Type} (rowsOf : α → List Row) (smaller larger : α) : Prop where
  filled : filledCount (rowsOf smaller) ≤ filledCount (rowsOf larger)
  extent : extent (rowsOf smaller) ≤ extent (rowsOf larger)
  same : Yaml.extent (rowsOf smaller) = Yaml.extent (rowsOf larger) → smaller = larger

namespace FitsIn

variable {α : Type} {rowsOf : α → List Row}

/-- A value takes as much room as itself. -/
theorem refl (value : α) : FitsIn rowsOf value value :=
  ⟨Nat.le_refl _, Nat.le_refl _, fun _ => rfl⟩

/-- What fits in a value fits in everything that the value fits in. -/
theorem trans {first second third : α} (lower : FitsIn rowsOf first second)
    (upper : FitsIn rowsOf second third) : FitsIn rowsOf first third where
  filled := Nat.le_trans lower.filled upper.filled
  extent := Nat.le_trans lower.extent upper.extent
  same := by
    intro equal
    have below := lower.extent
    have above := upper.extent
    rw [lower.same (by omega), upper.same (by omega)]

section Parts

variable {smaller larger : α} (fits : FitsIn rowsOf smaller larger)
include fits

/-- What is made of values and written with their rows fits in each other as well. -/
theorem map {β : Type} {written : β → List Row} (make : α → β)
    (smallerRows : written (make smaller) = rowsOf smaller)
    (largerRows : written (make larger) = rowsOf larger) :
    FitsIn written (make smaller) (make larger) := by
  constructor
  · rw [smallerRows, largerRows]
    exact fits.filled
  · rw [smallerRows, largerRows]
    exact fits.extent
  · rw [smallerRows, largerRows]
    exact fun equal => congrArg make (fits.same equal)

/-- Values that are written with the same rows in another way fit in each other as well. -/
theorem congr {written : α → List Row} (smallerSame : written smaller = rowsOf smaller)
    (largerSame : written larger = rowsOf larger) : FitsIn written smaller larger :=
  fits.map id smallerSame largerSame

/-- Values that fit in each other still do after the same rows. -/
theorem after (rows : List Row) : FitsIn (fun value => rows ++ rowsOf value) smaller larger := by
  constructor
  · simpa using fits.filled
  · simpa using fits.extent
  · simpa using fits.same

/-- Moved values fit in each other when the values do. -/
theorem indent : FitsIn (fun value => (rowsOf value).map Row.indent) smaller larger := by
  have filled := fits.filled
  have extent := fits.extent
  constructor
  · simpa only [filledCount_map_indent] using filled
  · simp only [extent_map_indent]
    omega
  · simp only [extent_map_indent]
    intro equal
    exact fits.same (by omega)

/-- Hung values fit in each other when the values do. -/
theorem hang (smallerOpens : Opens (rowsOf smaller)) (largerOpens : Opens (rowsOf larger))
    (lead : List Char) : FitsIn (fun value => Yaml.hang lead (rowsOf value)) smaller larger := by
  have filled := fits.filled
  have extent := fits.extent
  have smallerExtent := smallerOpens.extent_hang lead
  have largerExtent := largerOpens.extent_hang lead
  constructor
  · simpa only [smallerOpens.filledCount_hang, largerOpens.filledCount_hang] using filled
  · show Yaml.extent _ ≤ Yaml.extent _
    omega
  · intro equal
    exact fits.same (by omega)

/-- Lists fit in each other when their first values and what is left of them do. -/
theorem cons {others rest : List α}
    (restFits : FitsIn (fun values : List α => values.flatMap rowsOf) others rest) :
    FitsIn (fun values : List α => values.flatMap rowsOf) (smaller :: others)
      (larger :: rest) := by
  have filled := fits.filled
  have extent := fits.extent
  have restFilled := restFits.filled
  have restExtent := restFits.extent
  constructor
  · simp only [List.flatMap_cons, filledCount_append]
    omega
  · simp only [List.flatMap_cons, extent_append]
    omega
  · simp only [List.flatMap_cons, extent_append]
    intro equal
    rw [fits.same (by omega), restFits.same (by omega)]

end Parts

/-- Lists of values of which each fits in the other at its place fit in each other. -/
theorem flatMap {smaller larger : List α} (each : List.Forall₂ (FitsIn rowsOf) smaller larger) :
    FitsIn (fun values : List α => values.flatMap rowsOf) smaller larger := by
  induction each with
  | nil => exact refl []
  | cons fits _ inductionHypothesis => exact fits.cons inductionHypothesis

/-- Some of a list of values fit in the list. -/
theorem of_sublist {smaller larger : List α} (opens : ∀ value, Opens (rowsOf value))
    (selected : smaller.Sublist larger) :
    FitsIn (fun values : List α => values.flatMap rowsOf) smaller larger := by
  induction selected with
  | slnil => exact refl []
  | cons value _ inductionHypothesis =>
      obtain ⟨filled, extent, same⟩ := inductionHypothesis
      have taken := (opens value).two_le_extent
      constructor
      · simp only [List.flatMap_cons, filledCount_append]
        omega
      · simp only [List.flatMap_cons, extent_append]
        omega
      · simp only [List.flatMap_cons, extent_append]
        intro equal
        omega
  | cons_cons value _ inductionHypothesis => exact (refl value).cons inductionHypothesis

end FitsIn

end Yaml

namespace Tree

open Yaml (Row Opens FitsIn)

/-- The rows of a tree start with text. -/
theorem opens_rows (tree : Tree) : Opens tree.rows := by
  induction tree with
  | null =>
      rw [rows]
      exact ⟨_, _, rfl, by decide⟩
  | bool value =>
      rw [rows]
      exact ⟨_, _, rfl, by cases value <;> decide⟩
  | number value =>
      rw [rows]
      exact ⟨_, _, rfl, value.yamlText_ne_nil⟩
  | text value =>
      rw [rows]
      exact Yaml.opens_scalarRows value.toList
  | sequence items inductionHypothesis =>
      cases items with
      | nil =>
          rw [rows]
          exact ⟨_, _, rfl, by decide⟩
      | cons item rest =>
          rw [rows_sequence (List.cons_ne_nil _ _), List.flatMap_cons]
          exact ((inductionHypothesis item List.mem_cons_self).hang _).append _
  | mapping entries inductionHypothesis =>
      cases entries with
      | nil =>
          rw [rows]
          exact ⟨_, _, rfl, by decide⟩
      | cons entry rest =>
          rw [rows_mapping (List.cons_ne_nil _ _), List.flatMap_cons]
          exact (Yaml.opens_entryRows _ _ (inductionHypothesis entry List.mem_cons_self)).append _

/-- A part of a tree is written in the same way, unless the tree is a mapping that loses all
of its entries. -/
theorem Within.layout {smaller larger : Tree} (within : Within smaller larger) :
    (smaller.isBlockMapping = larger.isBlockMapping ∧
        smaller.isBlockSequence = larger.isBlockSequence) ∨
      (smaller = .mapping [] ∧ larger.isBlockMapping = true) := by
  cases within with
  | null | bool value | number value | text value => exact .inl ⟨rfl, rfl⟩
  | sequence items => cases items <;> exact .inl ⟨rfl, rfl⟩
  | @mapping smaller larger kept selected keys values =>
      cases larger with
      | nil =>
          obtain rfl := List.sublist_nil.mp selected
          obtain rfl := List.map_eq_nil_iff.mp keys
          exact .inl ⟨rfl, rfl⟩
      | cons entry rest =>
          cases smaller with
          | nil => exact .inr ⟨rfl, rfl⟩
          | cons first others => exact .inl ⟨rfl, rfl⟩

/-- Braces beside a key fit in the entry of a mapping with entries, which have rows of their
own. -/
theorem fitsIn_entryRows_of_empty {key : String} (simple : Yaml.isSimpleKey key = true)
    {larger : Tree} (block : larger.isBlockMapping = true) :
    FitsIn (fun value => Yaml.entryRows key value value.rows) (.mapping []) larger := by
  have emptied : Yaml.entryRows key (.mapping []) (mapping []).rows =
      [⟨Yaml.keyText key ++ [':', ' ', '\x7b', '\x7d'], '\n'⟩] := by
    simp [Yaml.entryRows, simple, isBlockMapping, isBlockSequence, rows, Yaml.hang]
  have entries : Yaml.entryRows key larger larger.rows =
      ⟨Yaml.keyText key ++ [':'], '\n'⟩ :: larger.rows.map Row.indent := by
    simp [Yaml.entryRows, simple, block]
  have filled := larger.opens_rows.filledCount_pos
  have taken := larger.opens_rows.two_le_extent
  constructor <;> simp only [emptied, entries]
  · simp
  · simp [Yaml.extent_map_indent]
    omega
  · simp [Yaml.extent_map_indent]
    omega

/-- A tree in an entry of a key fits in another one when the trees do. -/
theorem fitsIn_entryRows (key : String) {smaller larger : Tree} (within : Within smaller larger)
    (fits : FitsIn rows smaller larger) :
    FitsIn (fun value => Yaml.entryRows key value value.rows) smaller larger := by
  have hung := fits.hang smaller.opens_rows larger.opens_rows
  by_cases simple : Yaml.isSimpleKey key = true
  · rcases within.layout with ⟨sameMapping, sameSequence⟩ | ⟨rfl, block⟩
    · by_cases mapping : larger.isBlockMapping = true
      · apply (fits.indent.after [⟨Yaml.keyText key ++ [':'], '\n'⟩]).congr <;>
          simp [Yaml.entryRows, simple, sameMapping, mapping]
      · by_cases sequence : larger.isBlockSequence = true
        · apply (fits.after [⟨Yaml.keyText key ++ [':'], '\n'⟩]).congr <;>
            simp [Yaml.entryRows, simple, sameMapping, mapping, sameSequence, sequence]
        · apply (hung (Yaml.keyText key ++ [':', ' '])).congr <;>
            simp [Yaml.entryRows, simple, sameMapping, mapping, sameSequence, sequence]
    · exact fitsIn_entryRows_of_empty simple block
  · apply ((hung [':', ' ']).after (Yaml.hang ['?', ' '] (Yaml.scalarRows key.toList))).congr <;>
      simp [Yaml.entryRows, simple]

/-- Braces without entries fit in a mapping with entries, whose rows are longer. -/
theorem fitsIn_rows_of_empty {larger : List (String × Tree)} (filled : larger ≠ []) :
    FitsIn rows (.mapping []) (.mapping larger) := by
  have filledRows := (opens_rows (.mapping larger)).filledCount_pos
  have entries := rows_mapping filled
  have braces : (mapping []).rows = [⟨['\x7b', '\x7d'], '\n'⟩] := by rw [rows]
  have longer : 4 ≤ Yaml.extent (mapping larger).rows := by
    obtain ⟨entry, rest, rfl⟩ := List.exists_cons_of_ne_nil filled
    rw [entries, List.flatMap_cons, Yaml.extent_append]
    exact Nat.le_add_right_of_le
      (Yaml.four_le_extent_entryRows entry.1 entry.2 entry.2.opens_rows)
  constructor <;> rw [braces]
  · simpa using Nat.succ_le_of_lt filledRows
  · simp
    omega
  · simp
    omega

/-- Entries with equal keys fit in each other when their values do. -/
theorem fitsIn_entries {smaller larger : List (String × Tree)}
    (keys : smaller.map Prod.fst = larger.map Prod.fst)
    (values : List.Forall₂ Within (smaller.map Prod.snd) (larger.map Prod.snd))
    (fits : ∀ entry ∈ smaller, ∀ {other}, Within entry.2 other → FitsIn rows entry.2 other) :
    FitsIn (fun entries : List (String × Tree) =>
        entries.flatMap fun entry => Yaml.entryRows entry.1 entry.2 entry.2.rows)
      smaller larger := by
  induction smaller generalizing larger with
  | nil =>
      obtain rfl := List.map_eq_nil_iff.mp keys.symm
      exact .refl []
  | cons entry rest inductionHypothesis =>
      cases larger with
      | nil => cases keys
      | cons other others =>
          obtain ⟨key, value⟩ := entry
          obtain ⟨otherKey, otherValue⟩ := other
          obtain ⟨sameKey, restKeys⟩ := List.cons.inj keys
          obtain rfl : key = otherKey := sameKey
          cases values with
          | cons within restValues =>
              obtain ⟨firstFits, restFits⟩ := List.forall_mem_cons.mp fits
              have entryFits := fitsIn_entryRows key within (firstFits within)
              refine FitsIn.cons ?_ (inductionHypothesis restKeys restValues restFits)
              exact entryFits.map (fun value => (key, value)) rfl rfl

/-- The rows of a part of a tree fit in those of the tree. -/
theorem fitsIn_rows {smaller larger : Tree} (within : Within smaller larger) :
    FitsIn rows smaller larger := by
  induction smaller generalizing larger with
  | null | bool value | number value | text value =>
      cases within
      exact .refl _
  | sequence items inductionHypothesis =>
      cases within with
      | @sequence _ others each =>
          by_cases empty : items = []
          · subst empty
            cases each
            exact .refl _
          · have filled : others ≠ [] := by
              rintro rfl
              exact empty (List.forall₂_nil_right_iff.mp each)
            have parts := (List.forall₂_and_left _ _).mpr ⟨inductionHypothesis, each⟩
            have hung : List.Forall₂ (FitsIn fun item : Tree => Yaml.hang ['-', ' '] item.rows)
                items others := by
              refine parts.imp ?_
              rintro item other ⟨fits, within⟩
              exact (fits within).hang item.opens_rows other.opens_rows ['-', ' ']
            exact (FitsIn.flatMap hung).map sequence (rows_sequence empty) (rows_sequence filled)
  | mapping entries inductionHypothesis =>
      cases within with
      | @mapping _ others kept selected keys values =>
          by_cases filled : others = []
          · subst filled
            obtain rfl := List.sublist_nil.mp selected
            obtain rfl := List.map_eq_nil_iff.mp keys
            exact .refl _
          · by_cases empty : entries = []
            · subst empty
              exact fitsIn_rows_of_empty filled
            · have entriesFit := fitsIn_entries keys values inductionHypothesis
              have opens (entry : String × Tree) :
                  Opens (Yaml.entryRows entry.1 entry.2 entry.2.rows) :=
                Yaml.opens_entryRows entry.1 entry.2 entry.2.opens_rows
              have keptFit := FitsIn.of_sublist opens selected
              exact (entriesFit.trans keptFit).map mapping (rows_mapping empty)
                (rows_mapping filled)

/-- A document of a part of a tree fits in the document of the tree. -/
theorem fitsIn_documentRows {smaller larger : Tree} (within : Within smaller larger) :
    FitsIn documentRows smaller larger := by
  have fits := fitsIn_rows within
  rcases within.layout with ⟨sameMapping, sameSequence⟩ | ⟨rfl, block⟩
  · have sameInline : smaller.isInline = larger.isInline := by
      rw [isInline, isInline, sameMapping, sameSequence]
    by_cases inline : larger.isInline = true
    · apply (fits.hang smaller.opens_rows larger.opens_rows []).congr <;>
        simp [documentRows, sameInline, inline]
    · apply fits.congr <;> simp [documentRows, sameInline, inline]
  · apply fits.congr
    · simp [documentRows, isInline, isBlockMapping, isBlockSequence, rows, Yaml.hang]
    · simp [documentRows, isInline, block]

/-- The text of a part of a tree is the text of the tree only when the part is the tree. -/
theorem yaml_inj_of_within {smaller larger : Tree} (within : Within smaller larger) :
    smaller.yaml = larger.yaml ↔ smaller = larger := by
  refine ⟨fun equal => (fitsIn_documentRows within).same ?_, congrArg yaml⟩
  rw [yaml, yaml, String.ofList_inj] at equal
  rw [Yaml.extent, Yaml.extent, equal]

end Tree

end FieldGuide
