import FieldGuide.Proofs.Text.Escapes
import FieldGuide.Proofs.Yaml.Lines

/-!
# Scalars that are not the text

A text that cannot be plain is written between quotes or as a literal block. Either shows that
it is not the text itself: quotes are longer than what is between them, and a literal block moves
the rows of its text. So where such a text stands as it is, its scalar does not, even when lines
follow that could be taken for the rest of the scalar. Only a next line that starts like a row of
a literal block is left out.
-/

namespace FieldGuide.Yaml

/-! ## Quoted scalars -/

/-- A text whose only line feed is its end starts no text that has a line feed before this end. -/
theorem not_prefix_of_only_feed {written text rest : List Char}
    (long : text.length + 2 ≤ written.length) (last : written.getLast? = some '\n')
    (only : written.count '\n' ≤ 1) : ¬ written <+: text ++ '\n' :: rest := by
  intro starts
  have line : text ++ ['\n'] <+: text ++ '\n' :: rest := ⟨rest, by simp⟩
  obtain ⟨more, rfl⟩ := List.prefix_of_prefix_length_le line starts (by simp; omega)
  have filled : more ≠ [] := by
    rintro rfl
    simp at long
  rw [List.getLast?_append_of_ne_nil _ filled] at last
  have inMore := List.count_pos_iff.mpr (List.mem_of_getLast? last)
  simp only [List.count_append, List.count_singleton_self] at only
  omega

/-- Single quotes are longer than the text between them. -/
theorem length_add_two_le_singleQuoted (text : List Char) :
    text.length + 2 ≤ (singleQuoted text).length := by
  have writes (c : Char) : (if c = '\x27' then [c, c] else [c]) ≠ [] := by
    split <;> exact List.cons_ne_nil _ _
  have between := Text.length_le_length_flatMap writes text
  simp only [singleQuoted, List.length_append, List.length_cons, List.length_nil]
  omega

/-- No character is written as nothing between double quotes. -/
theorem doubleQuotedChar_ne_nil (c : Char) : doubleQuotedChar c ≠ [] := by
  unfold doubleQuotedChar
  split
  case h_15 =>
    split
    · exact List.cons_ne_nil _ _
    · split
      · exact List.cons_ne_nil _ _
      · split <;> exact List.cons_ne_nil _ _
  all_goals exact List.cons_ne_nil _ _

/-- Double quotes are longer than the text between them. -/
theorem length_add_two_le_doubleQuoted (text : List Char) :
    text.length + 2 ≤ (doubleQuoted text).length := by
  have between := Text.length_le_length_flatMap doubleQuotedChar_ne_nil text
  simp only [doubleQuoted, List.length_append, List.length_cons, List.length_nil]
  omega

/-! ## Literal blocks -/

/-- Where `first` and the moved `items` are read as the `items` and `next`, what holds of `first`
and is kept by moving holds of `next`. -/
theorem holds_of_cons_map_append {α : Type} {move : α → α} {holds : α → Prop}
    (kept : ∀ item, holds item → holds (move item)) {first next : α} {items rest more : List α}
    (start : holds first) (same : first :: items.map move ++ rest = items ++ next :: more) :
    holds next := by
  induction items generalizing first with
  | nil =>
      obtain ⟨rfl, -⟩ := List.cons.inj same
      exact start
  | cons item items inductionHypothesis =>
      obtain ⟨rfl, others⟩ := List.cons.inj same
      exact inductionHypothesis (kept first start) others

/-- Whether a row starts like those of a literal block, its header included. -/
def StartsBlockRow (row : Row) : Prop := row.text.head? = some '|' ∨ row.text.head? = some ' '

/-- A moved row of a literal block starts with a space. -/
theorem startsBlockRow_indent (row : Row) (starts : StartsBlockRow row) :
    StartsBlockRow row.indent := by
  have filled : row.text ≠ [] := by
    intro empty
    simp [StartsBlockRow, empty] at starts
  rw [StartsBlockRow, Row.text_indent filled]
  exact .inr rfl

/-- A character that is no break starts the first row. -/
theorem breakRows_cons_of_visible {c : Char} (noBreak : isBreak c = false) (rest : List Char) :
    ∃ row others, breakRows (c :: rest) = row :: others ∧ row.text.head? = some c := by
  rw [breakRows, if_neg (Bool.eq_false_iff.mp noBreak)]
  split
  · exact ⟨_, _, rfl, rfl⟩
  · exact ⟨_, _, rfl, rfl⟩

/-- A literal block does not start its own text, up to a line that starts like none of its
rows. -/
theorem not_literal_prefix {text rest : List Char} {c : Char}
    (printable : ∀ c ∈ text, isPrintable c = true) (noBreak : isBreak c = false) (noBar : c ≠ '|')
    (noSpace : c ≠ ' ') :
    ¬ (hang [] (⟨literalHeader text, '\n'⟩ :: breakRows text)).flatMap Row.chars <+:
      text ++ '\n' :: c :: rest := by
  rintro ⟨left, same⟩
  have whole : ∀ row ∈ hang [] (⟨literalHeader text, '\n'⟩ :: breakRows text), row.IsWhole :=
    Row.isWhole_of_mem_hang (List.forall_mem_nil _) (List.forall_mem_cons.mpr
      ⟨Row.isWhole_of_unbroken (unbroken_literalHeader text), isWhole_of_mem_breakRows printable⟩)
  have rows := breakRows_chars_append whole left
  rw [same, hang] at rows
  have header : StartsBlockRow ⟨[] ++ literalHeader text, '\n'⟩ := .inl rfl
  -- The first row that is not of the text stands in place of a row of the block.
  rcases breakRows_append_feed printable (c :: rest) with unended | ended
  · obtain ⟨row, others, split, first⟩ := breakRows_cons_of_visible noBreak rest
    rw [unended, split] at rows
    have starts := holds_of_cons_map_append startsBlockRow_indent header rows.symm
    rw [StartsBlockRow, first] at starts
    exact starts.elim (fun bar => noBar (Option.some.inj bar))
      fun space => noSpace (Option.some.inj space)
  · rw [ended] at rows
    have starts := holds_of_cons_map_append startsBlockRow_indent header rows.symm
    simp [StartsBlockRow] at starts

/-- Rows that hang are written with as many line feeds as before. -/
theorem count_newline_hang {lead : List Char} {rows : List Row} (unbroken : Unbroken lead)
    (whole : ∀ row ∈ rows, row.IsWhole) :
    ((hang lead rows).flatMap Row.chars).count '\n' = (rows.flatMap Row.chars).count '\n' := by
  rw [Row.count_newline_chars (Row.isWhole_of_mem_hang unbroken whole), map_ending_hang,
    ← Row.count_newline_chars whole]

/-- Whether rows are those of a text between quotes, which hold it in one line. -/
structure AreQuoted (text : List Char) (rows : List Row) : Prop where
  longer : text.length + 2 ≤ extent rows
  single : (rows.flatMap Row.chars).count '\n' ≤ 1

/-- The rows of a scalar between quotes. -/
theorem areQuoted_scalarRows {text : List Char} (quoted : Style.ofText text ≠ .plain)
    (inLine : Style.ofText text ≠ .literal) : AreQuoted text (scalarRows text) := by
  rw [scalarRows]
  cases style : Style.ofText text with
  | plain => exact absurd style quoted
  | literal => exact absurd style inLine
  | double =>
      have longer := length_add_two_le_doubleQuoted text
      have row := Row.isWhole_of_unbroken (unbroken_doubleQuoted text)
      have noFeeds := List.count_eq_zero.mpr row.noFeed
      constructor
      · simp only [extent_cons, extent_nil]
        omega
      · simp [Row.chars, noFeeds]
  | single =>
      have longer := length_add_two_le_singleQuoted text
      have noFeed : '\n' ∉ singleQuoted text := fun inside =>
        forall_mem_singleQuoted (· ≠ '\n') (by decide)
          (fun c member same => (allowsSingle_of_style style).1 (same ▸ member)) _ inside rfl
      have noFeeds := List.count_eq_zero.mpr noFeed
      constructor
      · rw [extent]
        rcases flatMap_chars_breakRows (singleQuoted text) with same | same
        · rw [same]
          exact longer
        · rw [same, List.length_append]
          omega
      · rcases flatMap_chars_breakRows (singleQuoted text) with same | same <;> simp [same, noFeeds]

/-- A text that is not written as it is does not start with what it is written as, up to a line
that starts like no row of a literal block. -/
theorem not_scalar_prefix {text : String} {rest : List Char} {c : Char}
    (quoted : Style.ofText text.toList ≠ .plain) (noBreak : isBreak c = false) (noBar : c ≠ '|')
    (noSpace : c ≠ ' ') :
    ¬ (hang [] (scalarRows text.toList)).flatMap Row.chars <+:
      text.toList ++ '\n' :: c :: rest := by
  by_cases literal : Style.ofText text.toList = .literal
  · have printable := printable_of_allowsLiteral (allowsLiteral_of_style literal).2
    rw [scalarRows, literal]
    exact not_literal_prefix printable noBreak noBar noSpace
  · obtain ⟨longer, single⟩ := areQuoted_scalarRows quoted literal
    have whole := isWhole_of_mem_scalarRows text.toList
    refine not_prefix_of_only_feed ?_ ?_ ?_
    · have lengths := (opens_scalarRows text.toList).extent_hang []
      have filled := (opens_scalarRows text.toList).filledCount_pos
      rw [List.length_nil] at lengths
      exact (show text.toList.length + 2 ≤ extent (hang [] (scalarRows text.toList)) by omega)
    · rw [getLast?_flatMap_chars, map_ending_hang, getLast?_ending_scalarRows, endsOpen]
      simp [literal]
    · rwa [count_newline_hang (List.forall_mem_nil _) whole]

end FieldGuide.Yaml
