import FieldGuide.Inspect
import FieldGuide.Proofs.Yaml.Scalar

/-!
# Peeling indented rows

Indentation moves rows, and peeling a wrapper takes it from lines. The two undo each other
as long as every line is one row with text. They do not where a row is empty, since empty
rows are not moved, nor where a separator ends a row, since it ends no line and the next
row is moved inside of the line. This module finds exactly when the rows of a text come
back, as a test of the characters of the text.
-/

namespace FieldGuide

namespace Text

/-- A character that starts no line end belongs to the first line. A carriage return does not
start one when no line feed follows it. -/
theorem lines_cons_of_inside {c : Char} {rest : List Char} (noFeed : c ≠ '\n')
    (noEnd : c = '\r' → rest.head? ≠ some '\n') :
    lines (c :: rest) =
      match lines rest with
      | [] => [[c]]
      | line :: others => (c :: line) :: others := by
  rw [lines.eq_def]
  split
  case h_1 same => cases same
  case h_2 same =>
    cases same
    exact absurd rfl (noEnd rfl)
  case h_3 same => exact absurd (List.cons.inj same).1 noFeed
  case h_4 same =>
    cases same
    rfl

/-- A character that is in no line end belongs to the first line. -/
theorem lines_cons {c : Char} (noFeed : c ≠ '\n') (noReturn : c ≠ '\r') (rest : List Char) :
    lines (c :: rest) =
      match lines rest with
      | [] => [[c]]
      | line :: others => (c :: line) :: others :=
  lines_cons_of_inside noFeed fun returned => absurd returned noReturn

/-- A line ends at its line feed, with the carriage returns in it when none is the last. -/
theorem lines_append_feed_of_last {line : List Char} (noFeed : '\n' ∉ line)
    (last : line.getLast? ≠ some '\r') (rest : List Char) :
    lines (line ++ '\n' :: rest) = line :: lines rest := by
  induction line with
  | nil => simp [lines]
  | cons c line inductionHypothesis =>
      rw [List.mem_cons, not_or] at noFeed
      cases line with
      | nil =>
          have noReturn : c ≠ '\r' := fun same => last (congrArg some same)
          rw [List.singleton_append, lines_cons (Ne.symm noFeed.1) noReturn]
          simp [lines]
      | cons d line =>
          have noEnd : (d :: line ++ '\n' :: rest).head? ≠ some '\n' := by
            intro starts
            exact noFeed.2 (Option.some.inj starts ▸ List.mem_cons_self)
          rw [List.getLast?_cons_cons] at last
          rw [List.cons_append, lines_cons_of_inside (Ne.symm noFeed.1) fun _ => noEnd,
            inductionHypothesis noFeed.2 last]

/-- A line ends at its line feed. -/
theorem lines_append_feed {line : List Char} (noFeed : '\n' ∉ line) (noReturn : '\r' ∉ line)
    (rest : List Char) : lines (line ++ '\n' :: rest) = line :: lines rest :=
  lines_append_feed_of_last noFeed (fun last => noReturn (List.mem_of_getLast? last)) rest

/-- A text that is not empty has a line. -/
theorem lines_ne_nil {text : List Char} (filled : text ≠ []) : lines text ≠ [] := by
  fun_cases lines text with
  | case1 => exact absurd rfl filled
  | case2 | case3 | case4 | case5 => exact List.cons_ne_nil _ _

/-- What stands after a line feed has lines of its own. -/
theorem lines_append_ended (text rest : List Char) :
    lines (text ++ '\n' :: rest) = lines (text ++ ['\n']) ++ lines rest := by
  induction text using lines.induct with
  | case1 => simp [lines]
  | case2 text inductionHypothesis => simp [lines, inductionHypothesis]
  | case3 text inductionHypothesis => simp [lines, inductionHypothesis]
  | case4 c text noEnd noFeed _ inductionHypothesis
  | case5 c text noEnd noFeed _ _ _ inductionHypothesis =>
      by_cases ends : text = [] ∧ c = '\r'
      · obtain ⟨rfl, rfl⟩ := ends
        simp [lines]
      · have inside (after : List Char) :
            c = '\r' → (text ++ '\n' :: after).head? ≠ some '\n' := by
          intro returned starts
          cases text with
          | nil => exact ends ⟨rfl, returned⟩
          | cons d text =>
              obtain rfl := Option.some.inj starts
              exact noEnd text returned rfl
        have filled : lines (text ++ ['\n']) ≠ [] := lines_ne_nil (by simp)
        obtain ⟨line, others, same⟩ := List.exists_cons_of_ne_nil filled
        rw [List.cons_append, List.cons_append, lines_cons_of_inside noFeed (inside rest),
          lines_cons_of_inside noFeed (inside []), inductionHypothesis, same, List.cons_append]
        rfl

/-- A carriage return right before a line feed belongs to the end of its line. -/
theorem lines_append_return {line : List Char} (noFeed : '\n' ∉ line) :
    lines (line ++ ['\r', '\n']) = [line] := by
  induction line with
  | nil => simp [lines]
  | cons c line inductionHypothesis =>
      rw [List.mem_cons, not_or] at noFeed
      have noEnd : (line ++ ['\r', '\n']).head? ≠ some '\n' := by
        cases line with
        | nil => decide
        | cons d line => exact fun same => noFeed.2 (Option.some.inj same ▸ List.mem_cons_self)
      rw [List.cons_append, lines_cons_of_inside (Ne.symm noFeed.1) fun _ => noEnd,
        inductionHypothesis noFeed.2]

/-- A text is the only line in front of a line feed exactly when it has no line feed and does not
end with a carriage return. -/
theorem lines_append_feed_eq_iff {line : List Char} :
    lines (line ++ ['\n']) = [line] ↔ '\n' ∉ line ∧ line.getLast? ≠ some '\r' := by
  constructor
  · intro same
    have noFeed : '\n' ∉ line := by
      intro inside
      obtain ⟨before, after, rfl⟩ := List.append_of_mem inside
      rw [List.append_assoc, List.cons_append, lines_append_ended] at same
      have filled (text : List Char) : 0 < (lines (text ++ ['\n'])).length :=
        List.length_pos_of_ne_nil (lines_ne_nil (by simp))
      have first := filled before
      have second := filled after
      have lengths := congrArg List.length same
      rw [List.length_append, List.length_singleton] at lengths
      omega
    refine ⟨noFeed, fun returned => ?_⟩
    obtain ⟨start, rfl⟩ := List.getLast?_eq_some_iff.mp returned
    rw [List.append_assoc, List.singleton_append,
      lines_append_return fun inside => noFeed (List.mem_append_left _ inside)] at same
    simp at same
  · rintro ⟨noFeed, last⟩
    exact lines_append_feed_of_last noFeed last []

/-- A text without line feeds is one line. -/
theorem lines_of_no_feed {text : List Char} (filled : text ≠ []) (noFeed : '\n' ∉ text) :
    lines text = [text] := by
  induction text with
  | nil => exact absurd rfl filled
  | cons c text inductionHypothesis =>
      rw [List.mem_cons, not_or] at noFeed
      have noEnd : text.head? ≠ some '\n' := fun starts => noFeed.2 (List.mem_of_head? starts)
      rw [lines_cons_of_inside (Ne.symm noFeed.1) fun _ => noEnd]
      cases text with
      | nil => rfl
      | cons d text => rw [inductionHypothesis (List.cons_ne_nil d text) noFeed.2]

/-- The characters of a line are characters of the text, and no line feeds. -/
theorem mem_of_mem_lines (text : List Char) :
    ∀ line ∈ lines text, ∀ c ∈ line, c ∈ text ∧ c ≠ '\n' := by
  have grows {text line : List Char} (before : List Char)
      (known : ∀ c ∈ line, c ∈ text ∧ c ≠ '\n') : ∀ c ∈ line, c ∈ before ++ text ∧ c ≠ '\n' :=
    fun c member => ⟨List.mem_append_right before (known c member).1, (known c member).2⟩
  fun_induction lines text with
  | case1 => exact List.forall_mem_nil _
  | case2 text inductionHypothesis =>
      exact List.forall_mem_cons.mpr ⟨List.forall_mem_nil _, fun line member =>
        grows ['\r', '\n'] (inductionHypothesis line member)⟩
  | case3 text inductionHypothesis =>
      exact List.forall_mem_cons.mpr ⟨List.forall_mem_nil _, fun line member =>
        grows ['\n'] (inductionHypothesis line member)⟩
  | case4 c text _ noFeed => simpa using noFeed
  | case5 c text _ noFeed first others split inductionHypothesis =>
      rw [split] at inductionHypothesis
      obtain ⟨firstKnown, othersKnown⟩ := List.forall_mem_cons.mp inductionHypothesis
      have start : ∀ d ∈ c :: first, d ∈ c :: text ∧ d ≠ '\n' :=
        List.forall_mem_cons.mpr ⟨⟨List.mem_cons_self, noFeed⟩, grows [c] firstKnown⟩
      exact List.forall_mem_cons.mpr ⟨start, fun line member =>
        grows [c] (othersKnown line member)⟩

/-- Whatever follows a text without line ends, the text starts the first line. -/
theorem prefix_lines_append {line : List Char} (filled : line ≠ []) (noFeed : '\n' ∉ line)
    (noReturn : '\r' ∉ line) (rest : List Char) :
    ∃ first others, lines (line ++ rest) = first :: others ∧ line <+: first := by
  induction line with
  | nil => exact absurd rfl filled
  | cons c line inductionHypothesis =>
      rw [List.mem_cons, not_or] at noFeed noReturn
      rw [List.cons_append, lines_cons (Ne.symm noFeed.1) (Ne.symm noReturn.1)]
      by_cases last : line = []
      · rw [last, List.nil_append]
        cases lines rest with
        | nil => exact ⟨[c], [], rfl, List.prefix_refl _⟩
        | cons first others => exact ⟨c :: first, others, rfl, List.prefix_append [c] first⟩
      · obtain ⟨first, others, split, start⟩ :=
          inductionHypothesis last noFeed.2 noReturn.2
        rw [split]
        exact ⟨c :: first, others, rfl, (List.prefix_cons_inj c).mpr start⟩

end Text

namespace Inspect

open Yaml (Row isBreak isSeparator)

/-- The text whose lines are those of the given text without two spaces at the start of
each. -/
def outdentLines? (text : List Char) : Option (List Char) :=
  ((Text.lines text).mapM outdent?).map unlines

/-- A text that starts with a line break has nothing to take from its first line. -/
theorem outdentLines?_of_break {c : Char} (breaks : isBreak c = true) (noReturn : c ≠ '\r')
    (rest : List Char) : outdentLines? (c :: rest) = none := by
  by_cases feed : c = '\n'
  · rw [feed, outdentLines?, ← List.nil_append ('\n' :: rest),
      Text.lines_append_feed (List.not_mem_nil) (List.not_mem_nil)]
    rfl
  · have visible (others : List Char) : outdent? (c :: others) = none := by
      have noSpace : c ≠ ' ' := by
        rintro rfl
        cases breaks
      simp [outdent?, noSpace]
    rw [outdentLines?, Text.lines_cons feed noReturn]
    split <;> simp [visible]

/-- A line that starts with two spaces loses them. -/
theorem outdentLines?_append_feed {line : List Char} (noFeed : '\n' ∉ line)
    (noReturn : '\r' ∉ line) (rest : List Char) :
    outdentLines? (' ' :: ' ' :: (line ++ '\n' :: rest)) =
      (outdentLines? rest).map fun text => line ++ '\n' :: text := by
  have feedless : '\n' ∉ ' ' :: ' ' :: line := by simp [noFeed]
  have returnless : '\r' ∉ ' ' :: ' ' :: line := by simp [noReturn]
  have indented := Text.lines_append_feed feedless returnless rest
  rw [List.cons_append, List.cons_append] at indented
  rw [outdentLines?, indented, outdentLines?, List.mapM_cons, outdent?]
  cases (Text.lines rest).mapM outdent? with
  | none => rfl
  | some others => simp [unlines]

/-- What is left of a text that starts with two spaces and a part of a line starts with
that part, and has a line feed. -/
theorem prefix_of_outdentLines? {line rest text : List Char} (noFeed : '\n' ∉ line)
    (noReturn : '\r' ∉ line) (peeled : outdentLines? (' ' :: ' ' :: (line ++ rest)) = some text) :
    line <+: text ∧ '\n' ∈ text := by
  obtain ⟨_, others, split, after, rfl⟩ := Text.prefix_lines_append
    (List.cons_ne_nil ' ' (' ' :: line)) (by simp [noFeed]) (by simp [noReturn]) rest
  rw [List.cons_append, List.cons_append] at split
  rw [outdentLines?, split, List.mapM_cons, List.cons_append, List.cons_append, outdent?] at peeled
  cases outdented : others.mapM outdent? with
  | none => simp [outdented] at peeled
  | some left =>
      rw [outdented] at peeled
      rw [← Option.some.inj peeled, unlines, List.flatMap_cons, List.append_assoc,
        List.append_assoc]
      exact ⟨List.prefix_append _ _, by simp⟩

/-- Whether the rows of a text are its lines, each with text and a line feed. No break
stands directly after a line feed, nothing but a break stands directly after a separator,
and the text ends with a line feed. The given character is the one before the text. -/
def keepsLines (before : Char) : List Char → Bool
  | [] => before = '\n'
  | c :: rest =>
      (if before = '\n' then !isBreak c else !isSeparator before || isBreak c) &&
        keepsLines c rest

/-- After text without breaks anything may follow. -/
theorem keepsLines_append_of_unbroken {before : Char} {text : List Char} {ending : Char}
    (visible : isBreak before = false) (unbroken : Yaml.Unbroken text) (rest : List Char) :
    keepsLines before (text ++ ending :: rest) = keepsLines ending rest := by
  have noFeed {c : Char} (noBreak : isBreak c = false) : c ≠ '\n' := by
    rintro rfl
    cases noBreak
  have noSeparator {c : Char} (noBreak : isBreak c = false) : isSeparator c = false := by
    rw [Bool.eq_false_iff]
    intro separator
    rw [Yaml.isBreak_of_isSeparator separator] at noBreak
    cases noBreak
  induction text generalizing before with
  | nil => simp [keepsLines, noFeed visible, noSeparator visible]
  | cons c text inductionHypothesis =>
      obtain ⟨first, others⟩ := List.forall_mem_cons.mp unbroken
      rw [List.cons_append, keepsLines, inductionHypothesis first others]
      simp [noFeed visible, noSeparator visible]

/-- A row is a line when it has text exactly if it starts a line. -/
theorem keepsLines_row {before : Char} (follows : before = '\n' ∨ isSeparator before = true)
    {row : Row} (whole : row.IsWhole) (rest : List Char) :
    keepsLines before (row.chars ++ rest) =
      ((decide (before = '\n') == !row.text.isEmpty) && keepsLines row.ending rest) := by
  obtain ⟨text, ending⟩ := row
  have unbroken : Yaml.Unbroken text := whole.text
  have breaks : isBreak ending = true := whole.isBreak_ending
  rw [Row.chars, List.append_assoc, List.singleton_append]
  cases text with
  | nil =>
      by_cases feed : before = '\n' <;> simp [keepsLines, feed, breaks]
  | cons c text =>
      obtain ⟨first, others⟩ := List.forall_mem_cons.mp unbroken
      rw [List.cons_append, keepsLines, keepsLines_append_of_unbroken first others]
      rcases follows with rfl | separator
      · simp [first]
      · simp [first, separator, Yaml.ne_newline_of_isSeparator separator]

/-- Text without breaks before a break is not the same text moved by two spaces. -/
theorem not_spaces_prefix {text : List Char} {ending : Char} (unbroken : Yaml.Unbroken text)
    (breaks : isBreak ending = true) (rest : List Char) :
    ¬ (' ' :: ' ' :: text <+: text ++ ending :: rest) := by
  induction text with
  | nil =>
      intro start
      rw [List.nil_append, List.cons_prefix_cons] at start
      rw [← start.1] at breaks
      cases breaks
  | cons c text inductionHypothesis =>
      intro start
      rw [List.cons_append, List.cons_prefix_cons] at start
      obtain ⟨rfl, start⟩ := start
      exact inductionHypothesis (List.forall_mem_cons.mp unbroken).2 start

section Rows

variable {rows : List Row} {line : List Char} {before : Char}

/-- A line goes on after a separator. -/
theorem not_mem_append_separator (noFeed : '\n' ∉ line) (noReturn : '\r' ∉ line)
    (separator : isSeparator before = true) :
    '\n' ∉ line ++ [before] ∧ '\r' ∉ line ++ [before] := by
  simp only [isSeparator, Bool.or_eq_true, decide_eq_true_eq] at separator
  rcases separator with rfl | rfl <;> simp [noFeed, noReturn]

/-- A moved row with text does not come back in the middle of a line. -/
theorem outdentLines?_inside_ne {row : Row} (whole : row.IsWhole) (filled : row.text ≠ [])
    (noFeed : '\n' ∉ line) (noReturn : '\r' ∉ line) (moved rest : List Char) :
    outdentLines? (' ' :: ' ' :: (line ++ (row.indent.chars ++ moved))) ≠
      some (line ++ (row.chars ++ rest)) := by
  intro peeled
  have feedless : '\n' ∉ line ++ ' ' :: ' ' :: row.text := by simp [noFeed, whole.noFeed]
  have returnless : '\r' ∉ line ++ ' ' :: ' ' :: row.text := by simp [noReturn, whole.noReturn]
  rw [Row.chars, Row.text_indent filled, List.append_assoc, ← List.append_assoc line] at peeled
  have start := (prefix_of_outdentLines? feedless returnless peeled).1
  rw [List.prefix_append_right_inj, Row.chars, List.append_assoc] at start
  exact not_spaces_prefix whole.text whole.isBreak_ending rest start

/-- Moved rows come back exactly when each of them is a line. In the middle of a line, the
first of them goes on with it. -/
theorem outdentLines?_rows (whole : ∀ row ∈ rows, row.IsWhole) :
    (outdentLines? ((rows.map Row.indent).flatMap Row.chars) = some (rows.flatMap Row.chars) ↔
        keepsLines '\n' (rows.flatMap Row.chars) = true) ∧
      ∀ {line : List Char} {before : Char}, '\n' ∉ line → '\r' ∉ line →
        isSeparator before = true →
        (outdentLines? (' ' :: ' ' :: (line ++ (rows.map Row.indent).flatMap Row.chars)) =
            some (line ++ rows.flatMap Row.chars) ↔
          keepsLines before (rows.flatMap Row.chars) = true) := by
  induction rows with
  | nil =>
      refine ⟨by simp [outdentLines?, Text.lines, unlines, keepsLines], ?_⟩
      intro line before noFeed noReturn separator
      have notFeed : keepsLines before [] ≠ true := by
        simpa [keepsLines] using Yaml.ne_newline_of_isSeparator separator
      refine iff_of_false (fun peeled => noFeed ?_) notFeed
      simpa using (prefix_of_outdentLines? noFeed noReturn peeled).2
  | cons row rest inductionHypothesis =>
      obtain ⟨first, others⟩ := List.forall_mem_cons.mp whole
      obtain ⟨atStart, inside⟩ := inductionHypothesis others
      -- After the end of the row, the other rows start a line or go on with this one.
      have goesOn {line : List Char} (noFeed : '\n' ∉ line) (noReturn : '\r' ∉ line) :
          outdentLines? (' ' :: ' ' ::
              (line ++ row.ending :: (rest.map Row.indent).flatMap Row.chars)) =
            some (line ++ row.ending :: rest.flatMap Row.chars) ↔
          keepsLines row.ending (rest.flatMap Row.chars) = true := by
        rcases first.ending with feed | separator
        · rw [feed, outdentLines?_append_feed noFeed noReturn, ← atStart]
          simp
        · have ended := not_mem_append_separator noFeed noReturn separator
          have peeled := inside ended.1 ended.2 separator
          rwa [List.append_assoc, List.append_assoc, List.singleton_append] at peeled
      rw [List.map_cons, List.flatMap_cons, List.flatMap_cons]
      constructor
      · rw [keepsLines_row (.inl rfl) first]
        by_cases empty : row.text = []
        · rw [Row.chars, Row.text_indent_of_empty empty, Row.ending_indent, List.nil_append,
            List.singleton_append, outdentLines?_of_break first.isBreak_ending]
          · simp [empty]
          · exact first.ending_ne_return
        · rw [Row.chars, Row.text_indent empty, Row.ending_indent, Row.chars]
          simpa [empty] using goesOn first.noFeed first.noReturn
      · intro line before noFeed noReturn separator
        have notFeed := Yaml.ne_newline_of_isSeparator separator
        rw [keepsLines_row (.inr separator) first]
        by_cases empty : row.text = []
        · rw [Row.chars, Row.text_indent_of_empty empty, Row.ending_indent, Row.chars, empty]
          simpa [notFeed] using goesOn noFeed noReturn
        · refine iff_of_false ?_ (by simp [notFeed, empty])
          exact outdentLines?_inside_ne first empty noFeed noReturn _ _

/-- A wrapper whose key stands in its first line is peeled from moved rows exactly when
each of the rows is a line. -/
theorem peel?_wrapped_iff {key : String} (noFeed : '\n' ∉ key.toList)
    (noReturn : '\r' ∉ key.toList) (whole : ∀ row ∈ rows, row.IsWhole) :
    let wrapped := key.toList ++ ':' :: '\n' :: (rows.map Row.indent).flatMap Row.chars
    peel? (.ofList wrapped) key = some (.ofList (rows.flatMap Row.chars)) ↔
      keepsLines '\n' (rows.flatMap Row.chars) = true := by
  intro wrapped
  have feedless : '\n' ∉ key.toList ++ [':'] := by simp [noFeed]
  have returnless : '\r' ∉ key.toList ++ [':'] := by simp [noReturn]
  have split := Text.lines_append_feed feedless returnless
    ((rows.map Row.indent).flatMap Row.chars)
  rw [List.append_assoc, List.singleton_append] at split
  have body : peel? (.ofList wrapped) key =
      (outdentLines? ((rows.map Row.indent).flatMap Row.chars)).map String.ofList := by
    rw [peel?, String.toList_ofList, split, outdentLines?, Option.map_map]
    exact if_pos rfl
  rw [body, ← (outdentLines?_rows whole).1, Option.map_eq_some_iff]
  constructor
  · rintro ⟨text, peeled, same⟩
    rwa [String.ofList_injective same] at peeled
  · exact fun peeled => ⟨_, peeled, rfl⟩

end Rows

end Inspect

end FieldGuide
