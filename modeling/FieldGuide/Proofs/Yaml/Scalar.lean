import FieldGuide.Yaml.Scalar
import Mathlib.Data.List.Basic

/-!
# Rows of scalars

A row of YAML text is meant to be one row: breaks end rows and stand nowhere else. This
module shows it for the rows of every scalar. Plain scalars hold no break, double quotes
escape all of them, and the other two styles are only chosen for printable texts, which
are split at each of their breaks.
-/

namespace FieldGuide.Yaml

/-- The breaks besides the line feed that a scalar can hold without escapes. -/
def isSeparator (c : Char) : Bool := c = '\u2028' || c = '\u2029'

/-- A text without breaks. -/
abbrev Unbroken (text : List Char) : Prop := ∀ c ∈ text, isBreak c = false

/-- A text of which no character is a break has no break. -/
theorem unbroken_of_any {text : List Char} (noBreak : text.any isBreak = false) :
    Unbroken text := by
  rw [List.any_eq_false] at noBreak
  exact fun c member => Bool.eq_false_iff.mpr (noBreak c member)

/-- A separator is a break. -/
theorem isBreak_of_isSeparator {c : Char} (separator : isSeparator c = true) :
    isBreak c = true := by
  simp only [isSeparator, Bool.or_eq_true, decide_eq_true_eq] at separator
  rcases separator with rfl | rfl <;> decide

/-- A printable break is a line feed or a separator. -/
theorem newline_or_isSeparator {c : Char} (breaks : isBreak c = true)
    (printable : isPrintable c = true) : c = '\n' ∨ isSeparator c = true := by
  simp only [isBreak, Bool.or_eq_true, decide_eq_true_eq] at breaks
  rcases breaks with (((rfl | rfl) | rfl) | rfl) | rfl
  · exact .inl rfl
  · exact absurd printable (by decide)
  · exact absurd printable (by decide)
  · exact .inr rfl
  · exact .inr rfl

/-- No line feed is a separator. -/
theorem ne_newline_of_isSeparator {c : Char} (separator : isSeparator c = true) : c ≠ '\n' := by
  rintro rfl
  cases separator

namespace Row

/-- Whether a row is one row: its text has no break, and it ends with a line feed or a
separator. -/
structure IsWhole (row : Row) : Prop where
  text : Unbroken row.text
  ending : row.ending = '\n' ∨ isSeparator row.ending = true

section IsWhole

variable {row : Row} (whole : row.IsWhole)
include whole

/-- The text of one row has no line feed. -/
theorem IsWhole.noFeed : '\n' ∉ row.text := by
  intro member
  cases whole.text _ member

/-- The text of one row has no carriage return. -/
theorem IsWhole.noReturn : '\r' ∉ row.text := by
  intro member
  cases whole.text _ member

/-- One row ends with a break. -/
theorem IsWhole.isBreak_ending : isBreak row.ending = true := by
  rcases whole.ending with feed | separator
  · rw [feed]
    rfl
  · exact isBreak_of_isSeparator separator

/-- No row ends with a carriage return. -/
theorem IsWhole.ending_ne_return : row.ending ≠ '\r' := by
  intro carriage
  have ending := whole.ending
  rw [carriage] at ending
  cases ending <;> contradiction

end IsWhole

/-- A text without breaks is one row. -/
theorem isWhole_of_unbroken {text : List Char} (unbroken : Unbroken text) :
    IsWhole ⟨text, '\n'⟩ :=
  ⟨unbroken, .inl rfl⟩

/-- A moved row has the ending of the row. -/
@[simp]
theorem ending_indent (row : Row) : row.indent.ending = row.ending := by
  rw [indent]
  split <;> rfl

/-- A row with text is moved to the right. -/
theorem text_indent {row : Row} (filled : row.text ≠ []) :
    row.indent.text = ' ' :: ' ' :: row.text := by
  rw [indent, if_neg (by simpa using filled)]

/-- An empty row stays empty. -/
theorem text_indent_of_empty {row : Row} (empty : row.text = []) : row.indent.text = [] := by
  rw [indent, if_pos (by simpa using empty), empty]

/-- A moved row stays one row. -/
theorem IsWhole.indent {row : Row} (whole : row.IsWhole) : row.indent.IsWhole := by
  refine ⟨?_, (ending_indent row).symm ▸ whole.ending⟩
  by_cases empty : row.text = []
  · rw [text_indent_of_empty empty]
    exact List.forall_mem_nil _
  · rw [text_indent empty]
    exact List.forall_mem_cons.mpr ⟨rfl, List.forall_mem_cons.mpr ⟨rfl, whole.text⟩⟩

/-- Rows that hang from an unbroken lead stay single rows. -/
theorem isWhole_of_mem_hang {lead : List Char} {rows : List Row} (unbroken : Unbroken lead)
    (whole : ∀ row ∈ rows, row.IsWhole) : ∀ row ∈ hang lead rows, row.IsWhole := by
  cases rows with
  | nil => exact List.forall_mem_nil _
  | cons first rest =>
      obtain ⟨firstWhole, restWhole⟩ := List.forall_mem_cons.mp whole
      have leading : Unbroken (lead ++ first.text) :=
        List.forall_mem_append.mpr ⟨unbroken, firstWhole.text⟩
      refine List.forall_mem_cons.mpr ⟨⟨leading, firstWhole.ending⟩, ?_⟩
      exact List.forall_mem_map.mpr fun row member => (restWhole row member).indent

/-- Line feeds only end rows. -/
theorem count_newline_chars {rows : List Row} (whole : ∀ row ∈ rows, row.IsWhole) :
    (rows.flatMap chars).count '\n' = (rows.map ending).count '\n' := by
  induction rows with
  | nil => rfl
  | cons row rows inductionHypothesis =>
      obtain ⟨first, others⟩ := List.forall_mem_cons.mp whole
      have noFeeds := List.count_eq_zero.mpr first.noFeed
      simp only [List.flatMap_cons, chars, List.count_append, List.map_cons, List.count_cons,
        List.count_nil, noFeeds, inductionHypothesis others]
      omega

/-- What stands in front of rows stands in front of their text. -/
theorem chars_hang {rows : List Row} (filled : rows ≠ []) (lead : List Char) :
    (hang lead rows).flatMap chars = lead ++ (hang [] rows).flatMap chars := by
  obtain ⟨first, rest, rfl⟩ := List.exists_cons_of_ne_nil filled
  simp [hang, chars]

end Row

section Breaks

variable {text : List Char}

/-- The rows of a printable text are single rows. -/
theorem isWhole_of_mem_breakRows (printable : ∀ c ∈ text, isPrintable c = true) :
    ∀ row ∈ breakRows text, row.IsWhole := by
  induction text with
  | nil => exact List.forall_mem_nil _
  | cons c rest inductionHypothesis =>
      obtain ⟨firstPrintable, restPrintable⟩ := List.forall_mem_cons.mp printable
      have rows := inductionHypothesis restPrintable
      rw [breakRows]
      split
      · next breaks =>
          exact List.forall_mem_cons.mpr
            ⟨⟨List.forall_mem_nil _, newline_or_isSeparator breaks firstPrintable⟩, rows⟩
      · next visible =>
          have unbroken : isBreak c = false := Bool.eq_false_iff.mpr visible
          split
          · exact List.forall_mem_singleton.mpr
              (Row.isWhole_of_unbroken (List.forall_mem_singleton.mpr unbroken))
          · next row others split =>
              rw [split] at rows
              obtain ⟨rowWhole, othersWhole⟩ := List.forall_mem_cons.mp rows
              exact List.forall_mem_cons.mpr
                ⟨⟨List.forall_mem_cons.mpr ⟨unbroken, rowWhole.text⟩, rowWhole.ending⟩, othersWhole⟩

/-- The rows of a text are the text again, up to a line feed at the end. -/
theorem flatMap_chars_breakRows (text : List Char) :
    (breakRows text).flatMap Row.chars = text ∨
      (breakRows text).flatMap Row.chars = text ++ ['\n'] := by
  induction text with
  | nil => exact .inl rfl
  | cons c rest inductionHypothesis =>
      rw [breakRows]
      split
      · simpa [Row.chars] using inductionHypothesis
      · split
        · next split =>
            rw [split] at inductionHypothesis
            refine .inr ?_
            simpa [Row.chars] using inductionHypothesis
        · next row others split =>
            rw [split] at inductionHypothesis
            simpa [Row.chars] using inductionHypothesis

/-- A row is read up to its ending. -/
theorem breakRows_append_ending {ending : Char} (unbroken : Unbroken text)
    (breaks : isBreak ending = true) (rest : List Char) :
    breakRows (text ++ ending :: rest) = ⟨text, ending⟩ :: breakRows rest := by
  induction text with
  | nil => rw [List.nil_append, breakRows, if_pos breaks]
  | cons c text inductionHypothesis =>
      obtain ⟨first, others⟩ := List.forall_mem_cons.mp unbroken
      rw [List.cons_append, breakRows, if_neg (Bool.eq_false_iff.mp first),
        inductionHypothesis others]

/-- The rows of a text that starts with single rows are these, and then those of what follows. -/
theorem breakRows_chars_append {rows : List Row} (whole : ∀ row ∈ rows, row.IsWhole)
    (rest : List Char) : breakRows (rows.flatMap Row.chars ++ rest) = rows ++ breakRows rest := by
  induction rows with
  | nil => rfl
  | cons row rows inductionHypothesis =>
      obtain ⟨first, others⟩ := List.forall_mem_cons.mp whole
      rw [List.flatMap_cons, Row.chars, List.append_assoc, List.append_assoc, List.singleton_append,
        breakRows_append_ending first.text first.isBreak_ending, inductionHypothesis others,
        List.cons_append]

/-- After a printable text with a line feed, the rows of what follows stand behind those of the
text, or behind an empty row when the text has a break at its end already. -/
theorem breakRows_append_feed (printable : ∀ c ∈ text, isPrintable c = true)
    (rest : List Char) :
    breakRows (text ++ '\n' :: rest) = breakRows text ++ breakRows rest ∨
      breakRows (text ++ '\n' :: rest) = breakRows text ++ ⟨[], '\n'⟩ :: breakRows rest := by
  have whole := isWhole_of_mem_breakRows printable
  rcases flatMap_chars_breakRows text with ended | unended
  · have read := breakRows_chars_append whole ('\n' :: rest)
    rw [ended] at read
    exact .inr read
  · have read := breakRows_chars_append whole rest
    rw [unended, List.append_assoc, List.singleton_append] at read
    exact .inl read

end Breaks

section Styles

variable {text : List Char}

/-- A scalar between single quotes has no line feed and may be written so. -/
theorem allowsSingle_of_style (single : Style.ofText text = .single) :
    '\n' ∉ text ∧ allowsSingle text = true := by
  simp only [Style.ofText] at single
  split at single
  · split at single <;> cases single
  · next noFeed =>
      refine ⟨by simpa using noFeed, ?_⟩
      split at single
      · cases single
      · split at single
        · assumption
        · cases single

/-- A literal block has a line feed and may be written so. -/
theorem allowsLiteral_of_style (literal : Style.ofText text = .literal) :
    '\n' ∈ text ∧ allowsLiteral text = true := by
  simp only [Style.ofText] at literal
  split at literal
  · next feed =>
      refine ⟨by simpa using feed, ?_⟩
      split at literal
      · assumption
      · cases literal
  · split at literal
    · cases literal
    · split at literal <;> cases literal

/-- A text that may be written without quotes has no break. -/
theorem unbroken_of_allowsPlain (allowed : allowsPlain text = true) : Unbroken text := by
  simp only [allowsPlain, Bool.and_eq_true, Bool.not_eq_true'] at allowed
  exact unbroken_of_any allowed.1.1.1.1.1.2

/-- A text is written as it is exactly when it reads as nothing else and has nothing in it that
calls for quotes. -/
theorem style_eq_plain_iff :
    Style.ofText text = .plain ↔ needsQuotes text = false ∧ allowsPlain text = true := by
  constructor
  · intro plain
    rw [Style.ofText] at plain
    split at plain
    · split at plain <;> cases plain
    · split at plain
      · next kept => simpa using kept
      · split at plain <;> cases plain
  · rintro ⟨readsAsText, allowed⟩
    have noFeed := (Row.isWhole_of_unbroken (unbroken_of_allowsPlain allowed)).noFeed
    rw [Style.ofText, if_neg (by simpa using noFeed), if_pos (by simp [readsAsText, allowed])]

/-- A plain scalar may be written without quotes. -/
theorem allowsPlain_of_style (plain : Style.ofText text = .plain) : allowsPlain text = true :=
  (style_eq_plain_iff.mp plain).2

/-- A text that may be written between single quotes is printable. -/
theorem printable_of_allowsSingle (allowed : allowsSingle text = true) :
    ∀ c ∈ text, isPrintable c = true := by
  simp only [allowsSingle, Bool.and_eq_true] at allowed
  exact List.all_eq_true.mp allowed.1.1

/-- A text that may be written as a literal block is printable. -/
theorem printable_of_allowsLiteral (allowed : allowsLiteral text = true) :
    ∀ c ∈ text, isPrintable c = true := by
  simp only [allowsLiteral, Bool.and_eq_true] at allowed
  exact List.all_eq_true.mp allowed.1.1

/-- The characters that escapes between double quotes are made of. -/
def isEscapeChar (c : Char) : Bool := c.isAlphanum || c = '\\' || c = '"'

/-- Escapes have no break. -/
theorem isBreak_of_isEscapeChar {c : Char} (escape : isEscapeChar c = true) :
    isBreak c = false := by
  cases breaks : isBreak c with
  | false => rfl
  | true =>
      simp only [isBreak, Bool.or_eq_true, decide_eq_true_eq] at breaks
      rcases breaks with (((rfl | rfl) | rfl) | rfl) | rfl <;> exact absurd escape (by decide)

/-- Upper-case hexadecimal digits. -/
theorem isEscapeChar_of_mem_upperHex (width value : Nat) :
    ∀ c ∈ upperHex width value, isEscapeChar c = true := by
  have digits (value : Nat) : ∀ c ∈ Nat.toDigits 16 value, ∃ digit < 16, c = digit.digitChar := by
    induction value using Nat.strongRecOn with
    | ind value inductionHypothesis =>
        rcases Nat.lt_or_ge value 16 with small | large
        · rw [Nat.toDigits_of_lt_base small]
          exact List.forall_mem_singleton.mpr ⟨value, small, rfl⟩
        · rw [Nat.toDigits_of_base_le (by decide) large]
          refine List.forall_mem_append.mpr ⟨?_, ?_⟩
          · exact inductionHypothesis (value / 16) (Nat.div_lt_self (by omega) (by decide))
          · exact List.forall_mem_singleton.mpr
              ⟨value % 16, Nat.mod_lt _ (by decide), rfl⟩
  have known : ∀ digit < 16, isEscapeChar digit.digitChar.toUpper = true := by decide
  refine List.forall_mem_map.mpr (List.forall_mem_append.mpr ⟨?_, ?_⟩)
  · intro c member
    rw [List.eq_of_mem_replicate member]
    decide
  · intro c member
    obtain ⟨digit, small, rfl⟩ := digits value c member
    exact known digit small

/-- A character between double quotes is written as itself, and is no break then, or as an
escape. -/
theorem doubleQuotedChar_eq_or (c : Char) :
    (doubleQuotedChar c = [c] ∧ isBreak c = false) ∨
      ∀ d ∈ doubleQuotedChar c, isEscapeChar d = true := by
  have escaped (letter : Char) (digits : List Char) (known : isEscapeChar letter = true)
      (hex : ∀ d ∈ digits, isEscapeChar d = true) :
      ∀ d ∈ ['\\', letter] ++ digits, isEscapeChar d = true :=
    List.forall_mem_cons.mpr ⟨rfl, List.forall_mem_cons.mpr ⟨known, hex⟩⟩
  cases breaks : isBreak c with
  | true =>
      simp only [isBreak, Bool.or_eq_true, decide_eq_true_eq] at breaks
      rcases breaks with (((rfl | rfl) | rfl) | rfl) | rfl <;> exact .inr (List.all_eq_true.mp rfl)
  | false =>
      unfold doubleQuotedChar
      split
      case h_15 =>
        split
        · exact .inl ⟨rfl, rfl⟩
        · split
          · exact .inr (escaped 'x' _ rfl (isEscapeChar_of_mem_upperHex 2 _))
          · split
            · exact .inr (escaped 'u' _ rfl (isEscapeChar_of_mem_upperHex 4 _))
            · exact .inr (escaped 'U' _ rfl (isEscapeChar_of_mem_upperHex 8 _))
      all_goals exact .inr (List.all_eq_true.mp rfl)

/-- Between double quotes, a text has its own characters that are no breaks, and those of
escapes. -/
theorem mem_doubleQuoted {text : List Char} {d : Char} (member : d ∈ doubleQuoted text) :
    (d ∈ text ∧ isBreak d = false) ∨ isEscapeChar d = true := by
  simp only [doubleQuoted, List.mem_append, List.mem_cons, List.not_mem_nil, or_false,
    List.mem_flatMap] at member
  rcases member with (rfl | ⟨c, inText, written⟩) | rfl
  · exact .inr rfl
  · rcases doubleQuotedChar_eq_or c with ⟨same, unbroken⟩ | escape
    · rw [same, List.mem_singleton] at written
      subst written
      exact .inl ⟨inText, unbroken⟩
    · exact .inr (escape d written)
  · exact .inr rfl

/-- A text between double quotes has no break. -/
theorem unbroken_doubleQuoted (text : List Char) : Unbroken (doubleQuoted text) := by
  intro c member
  rcases mem_doubleQuoted member with ⟨-, unbroken⟩ | escape
  · exact unbroken
  · exact isBreak_of_isEscapeChar escape

/-- A text between single quotes has the characters of the text, and quotes. -/
theorem forall_mem_singleQuoted (accept : Char → Prop) (quote : accept '\x27')
    (accepted : ∀ c ∈ text, accept c) : ∀ c ∈ singleQuoted text, accept c := by
  have written : ∀ c ∈ text.flatMap (fun c => if c = '\x27' then [c, c] else [c]), accept c := by
    intro c member
    obtain ⟨source, sourceMember, copied⟩ := List.mem_flatMap.mp member
    have same : c = source := by
      split at copied <;> simpa using copied
    exact same ▸ accepted source sourceMember
  exact List.forall_mem_append.mpr
    ⟨List.forall_mem_cons.mpr ⟨quote, written⟩, List.forall_mem_singleton.mpr quote⟩

/-- The header of a literal block has no break. -/
theorem unbroken_literalHeader (text : List Char) : Unbroken (literalHeader text) := by
  rw [literalHeader]
  refine List.forall_mem_cons.mpr ⟨rfl, List.forall_mem_append.mpr ⟨?_, ?_⟩⟩
  · split <;> exact unbroken_of_any rfl
  · split
    · exact unbroken_of_any rfl
    · split
      · exact unbroken_of_any rfl
      · split <;> exact unbroken_of_any rfl

/-- The rows of a scalar are single rows. -/
theorem isWhole_of_mem_scalarRows (text : List Char) :
    ∀ row ∈ scalarRows text, row.IsWhole := by
  rw [scalarRows]
  cases style : Style.ofText text with
  | plain =>
      have unbroken := unbroken_of_allowsPlain (allowsPlain_of_style style)
      exact List.forall_mem_singleton.mpr (Row.isWhole_of_unbroken unbroken)
  | single =>
      have printable := printable_of_allowsSingle (allowsSingle_of_style style).2
      exact isWhole_of_mem_breakRows (forall_mem_singleQuoted _ rfl printable)
  | double =>
      exact List.forall_mem_singleton.mpr (Row.isWhole_of_unbroken (unbroken_doubleQuoted text))
  | literal =>
      have printable := printable_of_allowsLiteral (allowsLiteral_of_style style).2
      exact List.forall_mem_cons.mpr
        ⟨Row.isWhole_of_unbroken (unbroken_literalHeader text), isWhole_of_mem_breakRows printable⟩

end Styles

end FieldGuide.Yaml
