import FieldGuide.Proofs.Yaml.Plain

/-!
# Lines of an entry

An entry of a mapping is written from the margin. The colon of its key stands in its first line, or
in the second one when the key does not stand on one row. All that follows stands beneath: it is
moved to the right, or it is an item in the column of the key, or a separator starts the line,
since an empty row of a literal block that ends with one goes on in the same line.
-/

namespace FieldGuide

open Inspect (IsLine unlines)

namespace Yaml

/-! ## Keys -/

section Keys

variable {key : String}

/-- A simple key is no literal block. -/
theorem style_ne_literal_of_simple (simple : isSimpleKey key = true) :
    Style.ofText key.toList ≠ .literal := by
  intro literal
  have feed := (allowsLiteral_of_style literal).1
  simp only [isSimpleKey, Bool.and_eq_true, Bool.not_eq_true', List.any_eq_false] at simple
  exact simple.1 '\n' feed rfl

/-- A text without breaks is one row. -/
theorem breakRows_of_unbroken {text : List Char} (filled : text ≠ []) (unbroken : Unbroken text) :
    breakRows text = [⟨text, '\n'⟩] := by
  induction text with
  | nil => exact absurd rfl filled
  | cons c text inductionHypothesis =>
      obtain ⟨first, others⟩ := List.forall_mem_cons.mp unbroken
      rw [breakRows, if_neg (Bool.eq_false_iff.mp first)]
      cases text with
      | nil => rfl
      | cons d text => rw [inductionHypothesis (List.cons_ne_nil d text) others]

/-- The text of a simple key is the key, as it is or between quotes. -/
theorem keyText_of_simple (simple : isSimpleKey key = true) :
    keyText key =
      match Style.ofText key.toList with
      | .plain => key.toList
      | .single => singleQuoted key.toList
      | .double | .literal => doubleQuoted key.toList := by
  have notLiteral := style_ne_literal_of_simple simple
  rw [keyText, scalarRows]
  cases style : Style.ofText key.toList with
  | plain | double => simp
  | literal => exact absurd style notLiteral
  | single =>
      simp only [isSimpleKey, Bool.and_eq_true, Bool.not_eq_true'] at simple
      have unbroken : Unbroken (singleQuoted key.toList) :=
        forall_mem_singleQuoted (isBreak · = false) rfl (unbroken_of_any simple.1)
      have filled : singleQuoted key.toList ≠ [] := List.cons_ne_nil _ _
      simp [breakRows_of_unbroken filled unbroken]

/-- A simple key stands as it is exactly when it is plain: quotes make it longer. -/
theorem keyText_eq_iff (simple : isSimpleKey key = true) :
    keyText key = key.toList ↔ Style.ofText key.toList = .plain := by
  have notLiteral := style_ne_literal_of_simple simple
  rw [keyText_of_simple simple]
  cases style : Style.ofText key.toList with
  | plain => simp
  | literal => exact absurd style notLiteral
  | single =>
      have longer := length_add_two_le_singleQuoted key.toList
      refine iff_of_false (fun same => ?_) (by decide)
      have lengths := congrArg List.length same
      dsimp only at lengths
      omega
  | double =>
      have longer := length_add_two_le_doubleQuoted key.toList
      refine iff_of_false (fun same => ?_) (by decide)
      have lengths := congrArg List.length same
      dsimp only at lengths
      omega

end Keys

/-- The colon is no character of escapes, so that quotes have those of the text between them. -/
theorem noColon_of_mem_scalarRows {text : List Char} (noColon : ':' ∉ text)
    (notLiteral : Style.ofText text ≠ .literal) : ∀ row ∈ scalarRows text, ':' ∉ row.text := by
  rw [scalarRows]
  cases style : Style.ofText text with
  | literal => exact absurd style notLiteral
  | plain => simpa using noColon
  | double =>
      rw [List.forall_mem_singleton]
      intro colon
      rcases mem_doubleQuoted colon with ⟨inText, -⟩ | escape
      · exact noColon inText
      · cases escape
  | single =>
      have quoted : ':' ∉ singleQuoted text := fun colon =>
        forall_mem_singleQuoted (· ≠ ':') (by decide)
          (fun c member same => noColon (same ▸ member)) _ colon rfl
      intro row member colon
      have inRows : ':' ∈ (breakRows (singleQuoted text)).flatMap Row.chars :=
        List.mem_flatMap.mpr ⟨row, member, List.mem_append_left _ colon⟩
      rcases flatMap_chars_breakRows (singleQuoted text) with same | same
      · exact quoted (same ▸ inRows)
      · rw [same] at inRows
        exact quoted (by simpa using inRows)

/-! ## Lines beneath a key -/

/-- Whether a character can start a line beneath a key of the outermost mapping. -/
def startsBeneath (c : Char) : Bool := c = ' ' || c = '-' || isSeparator c

/-- Whether a text starts like a line beneath a key, or is empty. -/
abbrev Beneath (text : List Char) : Prop := ∀ c ∈ text.head?, startsBeneath c = true

/-- The empty text may stand beneath a key. -/
theorem beneath_nil : Beneath [] := by
  rintro _ ⟨⟩

/-- What follows a text that is not empty does not start the line. -/
theorem Beneath.append {text rest : List Char} (start : Beneath text) (next : Beneath rest) :
    Beneath (text ++ rest) := by
  cases text with
  | nil => exact next
  | cons c text => exact start

/-- A separator may start a line beneath a key. -/
theorem beneath_separator {separator : Char} (separates : isSeparator separator = true)
    (rest : List Char) : Beneath (separator :: rest) := by
  rintro c ⟨⟩
  simp [startsBeneath, separates]

/-- A moved row stands beneath a key. -/
theorem beneath_indent (row : Row) : Beneath row.indent.text := by
  by_cases empty : row.text = []
  · rw [Row.text_indent_of_empty empty]
    exact beneath_nil
  · rw [Row.text_indent empty]
    rintro c ⟨⟩
    rfl

/-- A line that stands beneath a key, or the part of one that is written so far. -/
structure IsLower (line : List Char) : Prop where
  isLine : IsLine line
  beneath : Beneath line

/-- The empty line. -/
theorem isLower_nil : IsLower [] := ⟨Inspect.isLine_nil, beneath_nil⟩

/-- Rows beneath a key are written as lines beneath it. -/
theorem exists_lower_lines {rows : List Row} (whole : ∀ row ∈ rows, row.IsWhole)
    (beneath : ∀ row ∈ rows, Beneath row.text) :
    ∃ lines rest, rows.flatMap Row.chars = unlines lines ++ rest ∧
      ∀ line ∈ rest :: lines, IsLower line := by
  obtain ⟨lines, rest, written, known⟩ := exists_lines_and_rest Beneath beneath_nil
    (fun separates start _ => start.append (beneath_separator separates _)) whole beneath
  exact ⟨lines, rest, written, fun line member => ⟨(known line member).1, (known line member).2⟩⟩

/-- Where a row ends with a line feed, the text of the rows has a first line, with rows of its own
after it. -/
theorem exists_first_line {rows : List Row} (whole : ∀ row ∈ rows, row.IsWhole)
    (feeds : '\n' ∈ rows.map Row.ending) :
    ∃ line later, rows.flatMap Row.chars = line ++ '\n' :: later.flatMap Row.chars ∧
      IsLine line ∧ later <:+ rows.tail := by
  induction rows with
  | nil => cases feeds
  | cons row rows inductionHypothesis =>
      obtain ⟨first, others⟩ := List.forall_mem_cons.mp whole
      have single : IsLine row.text := ⟨first.noFeed, first.noReturn⟩
      rw [List.flatMap_cons, Row.chars, List.append_assoc, List.singleton_append]
      rcases first.ending with feed | separator
      · exact ⟨row.text, rows, by rw [feed], single, List.suffix_refl rows⟩
      · have notFeed := ne_newline_of_isSeparator separator
        rw [List.map_cons, List.mem_cons] at feeds
        obtain ⟨line, later, written, lineKnown, suffix⟩ :=
          inductionHypothesis others (feeds.resolve_left (Ne.symm notFeed))
        refine ⟨row.text ++ row.ending :: line, later, ?_, ⟨?_, ?_⟩,
          suffix.trans (List.tail_suffix rows)⟩
        · rw [written, List.append_assoc, List.cons_append]
        · simp [single.noFeed, lineKnown.noFeed, notFeed.symm]
        · simp [single.noReturn, lineKnown.noReturn, first.ending_ne_return.symm]

end Yaml

namespace Tree

open Yaml (Row hang Beneath IsLower)

/-- A row of every tree ends with a line feed. -/
theorem newline_mem_ending_rows (tree : Tree) : '\n' ∈ tree.rows.map Row.ending := by
  induction tree with
  | null | bool value | number value => simp [rows]
  | text value =>
      rw [rows]
      by_cases literal : Yaml.Style.ofText value.toList = .literal
      · simp [Yaml.scalarRows, literal]
      · have closed : Yaml.endsOpen value = false := by simp [Yaml.endsOpen, literal]
        exact List.mem_of_getLast? (Yaml.getLast?_ending_scalarRows value |>.mpr closed)
  | sequence items inductionHypothesis =>
      cases items with
      | nil => simp [rows]
      | cons item rest =>
          rw [rows_sequence (List.cons_ne_nil _ _), List.flatMap_cons, List.map_append,
            Yaml.map_ending_hang]
          exact List.mem_append_left _ (inductionHypothesis item List.mem_cons_self)
  | mapping entries inductionHypothesis =>
      cases entries with
      | nil => simp [rows]
      | cons entry rest =>
          have value := inductionHypothesis entry List.mem_cons_self
          rw [rows_mapping (List.cons_ne_nil _ _), List.flatMap_cons, List.map_append]
          refine List.mem_append_left _ ?_
          rw [Yaml.entryRows]
          split
          · split
            · exact List.mem_cons_self
            · split
              · exact List.mem_cons_self
              · rwa [Yaml.map_ending_hang]
          · rw [List.map_append, Yaml.map_ending_hang, Yaml.map_ending_hang]
            exact List.mem_append_right _ value

/-- The items of a sequence stand beneath the key in whose column they are. -/
theorem beneath_of_mem_rows_sequence {items : List Tree} (filled : items ≠ []) :
    ∀ row ∈ (sequence items).rows, Beneath row.text := by
  rw [rows_sequence filled]
  intro row member
  obtain ⟨item, -, inItem⟩ := List.mem_flatMap.mp member
  cases split : item.rows with
  | nil =>
      rw [split] at inItem
      cases inItem
  | cons first rest =>
      rw [split, hang] at inItem
      rcases List.mem_cons.mp inItem with rfl | moved
      · rintro c ⟨⟩
        rfl
      · obtain ⟨source, -, rfl⟩ := List.mem_map.mp moved
        exact Yaml.beneath_indent source

/-- A tree that hangs from a lead goes on in the line of the lead and has its other lines
beneath. -/
theorem exists_lines_hang (value : Tree) {lead : List Char} (leadLine : IsLine lead) :
    ∃ after lines rest, (hang lead value.rows).flatMap Row.chars =
        unlines ((lead ++ after) :: lines) ++ rest ∧
      IsLine (lead ++ after) ∧ ∀ line ∈ rest :: lines, IsLower line := by
  obtain ⟨first, others, split, -⟩ := value.opens_rows
  have filled : value.rows ≠ [] := split ▸ List.cons_ne_nil first others
  have whole := Row.isWhole_of_mem_hang (List.forall_mem_nil _) value.isWhole_of_mem_rows
  have feeds := value.newline_mem_ending_rows
  rw [← Yaml.map_ending_hang []] at feeds
  obtain ⟨after, later, written, afterLine, suffix⟩ := Yaml.exists_first_line whole feeds
  have moved : ∀ row ∈ later, Beneath row.text := by
    intro row member
    have inTail := suffix.subset member
    rw [split, hang, List.tail_cons] at inTail
    obtain ⟨source, -, rfl⟩ := List.mem_map.mp inTail
    exact Yaml.beneath_indent source
  have laterWhole : ∀ row ∈ later, row.IsWhole := fun row member =>
    whole row (List.mem_of_mem_tail (suffix.subset member))
  obtain ⟨lines, rest, lower, known⟩ := Yaml.exists_lower_lines laterWhole moved
  refine ⟨after, lines, rest, ?_, ⟨?_, ?_⟩, known⟩
  · rw [Row.chars_hang filled, written, lower, Inspect.unlines_cons]
    simp
  · simp [leadLine.noFeed, afterLine.noFeed]
  · simp [leadLine.noReturn, afterLine.noReturn]

end Tree

namespace Yaml

/-! ## Entries -/

/-- An entry of a simple key starts with the line of the key and its colon. -/
theorem exists_lines_of_simple {key : String} (simple : isSimpleKey key = true) (value : Tree) :
    ∃ after lines rest, (entryRows key value value.rows).flatMap Row.chars =
        unlines ((keyText key ++ ':' :: after) :: lines) ++ rest ∧
      IsLine (keyText key ++ ':' :: after) ∧ ∀ line ∈ rest :: lines, IsLower line := by
  have keyRow := Row.isWhole_of_unbroken (unbroken_keyText key)
  have keyLine : IsLine (keyText key ++ [':']) :=
    ⟨by simp [keyRow.noFeed], by simp [keyRow.noReturn]⟩
  have ofRows {rows : List Row} (whole : ∀ row ∈ rows, row.IsWhole)
      (beneath : ∀ row ∈ rows, Beneath row.text) :
      ∃ after lines rest, (⟨keyText key ++ [':'], '\n'⟩ :: rows).flatMap Row.chars =
          unlines ((keyText key ++ ':' :: after) :: lines) ++ rest ∧
        IsLine (keyText key ++ ':' :: after) ∧ ∀ line ∈ rest :: lines, IsLower line := by
    obtain ⟨lines, rest, written, known⟩ := exists_lower_lines whole beneath
    refine ⟨[], lines, rest, ?_, keyLine, known⟩
    simp [Row.chars, written, Inspect.unlines_cons]
  rw [entryRows, if_pos simple]
  split
  · refine ofRows ?_ (List.forall_mem_map.mpr fun row _ => beneath_indent row)
    exact List.forall_mem_map.mpr fun row member => (value.isWhole_of_mem_rows row member).indent
  · split
    · next block =>
        cases value with
        | sequence items =>
            refine ofRows (Tree.isWhole_of_mem_rows _) (Tree.beneath_of_mem_rows_sequence ?_)
            rintro rfl
            cases block
        | null | bool value | number value | text value | mapping entries => cases block
    · have leadLine : IsLine (keyText key ++ [':', ' ']) :=
        ⟨by simp [keyRow.noFeed], by simp [keyRow.noReturn]⟩
      obtain ⟨after, lines, rest, written, first, known⟩ := value.exists_lines_hang leadLine
      have same : keyText key ++ [':', ' '] ++ after = keyText key ++ ':' :: ' ' :: after := by simp
      rw [same] at written first
      exact ⟨' ' :: after, lines, rest, written, first, known⟩

/-- Without line feeds in it, a text is one line wherever it hangs, however it is written. -/
theorem count_newline_hang_scalarRows {lead text : List Char} (unbroken : Unbroken lead)
    (noFeed : '\n' ∉ text) : ((hang lead (scalarRows text)).flatMap Row.chars).count '\n' ≤ 1 := by
  rw [count_newline_hang unbroken (isWhole_of_mem_scalarRows text)]
  by_cases plain : Style.ofText text = .plain
  · simp [scalarRows, plain, Row.chars, List.count_eq_zero.mpr noFeed]
  · exact (areQuoted_scalarRows plain fun literal =>
      noFeed (allowsLiteral_of_style literal).1).single

/-- Each line is written with one line feed. -/
theorem count_newline_unlines {lines : List (List Char)} (single : ∀ line ∈ lines, IsLine line) :
    (unlines lines).count '\n' = lines.length := by
  induction lines with
  | nil => rfl
  | cons line lines inductionHypothesis =>
      obtain ⟨first, others⟩ := List.forall_mem_cons.mp single
      simp [Inspect.unlines_cons, List.count_append, List.count_eq_zero.mpr first.noFeed,
        inductionHypothesis others]

/-- A key with neither a line feed nor a colon that does not stand on one row has a line without
colons, behind a mark. -/
theorem exists_line_of_key {key : String} (noFeed : '\n' ∉ key.toList)
    (noColon : ':' ∉ key.toList) :
    ∃ line, (hang ['?', ' '] (scalarRows key.toList)).flatMap Row.chars = unlines [line] ∧
      IsLine line ∧ ':' ∉ line := by
  have notLiteral : Style.ofText key.toList ≠ .literal := fun literal =>
    noFeed (allowsLiteral_of_style literal).1
  have markUnbroken : Unbroken ['?', ' '] := unbroken_of_any rfl
  have whole := Row.isWhole_of_mem_hang markUnbroken (isWhole_of_mem_scalarRows key.toList)
  have colonless : ∀ row ∈ hang ['?', ' '] (scalarRows key.toList), ':' ∉ row.text := by
    have rows := noColon_of_mem_scalarRows noColon notLiteral
    obtain ⟨first, others, split, -⟩ := opens_scalarRows key.toList
    rw [split] at rows ⊢
    obtain ⟨firstColonless, othersColonless⟩ := List.forall_mem_cons.mp rows
    refine List.forall_mem_cons.mpr ⟨by simp [firstColonless], List.forall_mem_map.mpr ?_⟩
    intro row member
    by_cases empty : row.text = []
    · simp [Row.text_indent_of_empty empty]
    · simp [Row.text_indent empty, othersColonless row member]
  have goesOn {text rest : List Char} {separator : Char} (separates : isSeparator separator = true)
      (left : ':' ∉ text) (right : ':' ∉ rest) : ':' ∉ text ++ separator :: rest := by
    have notColon : ':' ≠ separator := by
      rintro rfl
      cases separates
    simp [left, right, notColon]
  obtain ⟨lines, rest, written, known⟩ :=
    exists_lines_and_rest (':' ∉ ·) List.not_mem_nil goesOn whole colonless
  have last : ((hang ['?', ' '] (scalarRows key.toList)).flatMap Row.chars).getLast? =
      some '\n' := by
    rw [getLast?_flatMap_chars, map_ending_hang, getLast?_ending_scalarRows]
    simp [endsOpen, notLiteral]
  obtain ⟨restKnown, linesKnown⟩ := List.forall_mem_cons.mp known
  obtain rfl := (eq_nil_iff_of_unlines_append written restKnown.1).mpr (.inr last)
  have few := count_newline_hang_scalarRows markUnbroken noFeed
  rw [written, List.append_nil, count_newline_unlines fun line member =>
    (linesKnown line member).1] at few
  rw [List.append_nil] at written
  have filled : lines ≠ [] := by
    rintro rfl
    rw [written] at last
    cases last
  have one : lines.length = 1 := Nat.le_antisymm few (List.length_pos_of_ne_nil filled)
  obtain ⟨line, rfl⟩ := List.length_eq_one_iff.mp one
  exact ⟨line, written, linesKnown line List.mem_cons_self⟩

/-- An entry of another key has the key in its first line, and a colon at the start of the second
one. -/
theorem exists_lines_of_not_simple {key : String} (rowless : isSimpleKey key = false)
    (noFeed : '\n' ∉ key.toList) (noColon : ':' ∉ key.toList) (value : Tree) :
    ∃ first after lines rest, (entryRows key value value.rows).flatMap Row.chars =
        unlines (first :: (':' :: after) :: lines) ++ rest ∧
      IsLine first ∧ ':' ∉ first ∧ IsLine (':' :: after) ∧
      ∀ line ∈ rest :: lines, IsLower line := by
  obtain ⟨first, keyWritten, firstLine, firstColonless⟩ := exists_line_of_key noFeed noColon
  obtain ⟨after, lines, rest, written, second, known⟩ :=
    value.exists_lines_hang (by decide : IsLine [':', ' '])
  refine ⟨first, ' ' :: after, lines, rest, ?_, firstLine, firstColonless, second, known⟩
  rw [entryRows, if_neg (by simp [rowless]), List.flatMap_append, keyWritten, written,
    ← List.append_assoc, ← Inspect.unlines_append]
  rfl

/-- The text of an entry ends with a line feed unless the text that stands last in its value ends
open. -/
theorem getLast?_chars_entryRows (key : String) (value : Tree) :
    ((entryRows key value value.rows).flatMap Row.chars).getLast? = some '\n' ↔
      value.lastText?.any endsOpen = false := by
  obtain ⟨first, others, split, -⟩ := value.opens_rows
  have filled : value.rows ≠ [] := split ▸ List.cons_ne_nil first others
  rw [getLast?_flatMap_chars, getLast?_ending_entryRows key value filled,
    Tree.getLast?_ending_rows]

end Yaml

end FieldGuide
