import FieldGuide.Field.Edit
import FieldGuide.Page.Prose
import FieldGuide.Proofs.Field.Duplicates

/-!
# Valid components

A component is valid when its summary holds no line end twice in a row and no name is declared
twice among siblings. A line may end in two ways, with a line feed or with a carriage return and
a line feed, and an empty line is any two ends in a row. Of the four ways to write one, three hold
a line end of one kind twice; the fourth, a line feed alone before a carriage return and a line
feed, is not noticed unless the summary also has an empty line of another kind.
-/

namespace FieldGuide

namespace Text

/-- A text occurs inside another one exactly when something can be put around it. -/
theorem occursIn_iff {needle text : List Char} :
    occursIn needle text = true ↔ needle <:+: text := by
  induction text with
  | nil => simp [occursIn]
  | cons c rest inductionHypothesis =>
      rw [occursIn, Bool.or_eq_true, List.isPrefixOf_iff_prefix, inductionHypothesis,
        List.infix_cons_iff]

/-- The ways to end a line. -/
def lineEnds : List (List Char) := [['\n'], ['\r', '\n']]

/-- Whether a text has an empty line: two line ends, one directly after the other. -/
def HasEmptyLine (text : List Char) : Prop :=
  ∃ first ∈ lineEnds, ∃ second ∈ lineEnds, first ++ second <:+: text

/-- Whether a text has an empty line between two line ends of one kind. -/
def RepeatsLineEnd (text : List Char) : Prop :=
  ∃ ending ∈ lineEnds, ending ++ ending <:+: text

/-- Whether a text has an empty line between a line feed alone and a carriage return with a line
feed. -/
def MixesLineEnds (text : List Char) : Prop :=
  ∃ before after, text = before ++ ['\n', '\r', '\n'] ++ after ∧ before.getLast? ≠ some '\r'

/-- The line ends around an empty line are of one kind or mixed. A carriage return before the
mixed ones makes the first of them one of the other kind, too. -/
theorem hasEmptyLine_iff {text : List Char} :
    HasEmptyLine text ↔ RepeatsLineEnd text ∨ MixesLineEnds text := by
  have feeds : ['\n', '\n'] <:+: text → RepeatsLineEnd text :=
    fun inside => ⟨['\n'], by decide, inside⟩
  constructor
  · rintro ⟨first, firstMember, second, secondMember, inside⟩
    simp only [lineEnds, List.mem_cons, List.not_mem_nil, or_false] at firstMember secondMember
    rcases firstMember with rfl | rfl <;> rcases secondMember with rfl | rfl
    · exact .inl (feeds inside)
    · obtain ⟨before, after, rfl⟩ := inside
      -- A line feed after a carriage return is not alone, and ends its line as the next one does.
      by_cases returned : before.getLast? = some '\r'
      · obtain ⟨start, rfl⟩ := List.getLast?_eq_some_iff.mp returned
        exact .inl ⟨['\r', '\n'], by decide, start, after, by simp⟩
      · exact .inr ⟨before, after, rfl, returned⟩
    · exact .inl (feeds (.trans ⟨['\r'], [], rfl⟩ inside))
    · exact .inl ⟨['\r', '\n'], by decide, inside⟩
  · rintro (⟨ending, member, inside⟩ | ⟨before, after, rfl, -⟩)
    · exact ⟨ending, member, ending, member, inside⟩
    · exact ⟨['\n'], by decide, ['\r', '\n'], by decide, before, after, rfl⟩

/-- A part of a text has no line end twice when the whole text has none. -/
theorem RepeatsLineEnd.of_infix {part text : List Char} (inside : part <:+: text)
    (repeats : RepeatsLineEnd part) : RepeatsLineEnd text := by
  obtain ⟨ending, member, within⟩ := repeats
  exact ⟨ending, member, within.trans inside⟩

/-- A text starts with what is left of it without the white space at its end. -/
theorem trimEnd_prefix (text : List Char) : trimEnd text <+: text := by
  have suffix := List.dropWhile_suffix (l := text.reverse) isBlank
  rw [← List.reverse_prefix, List.reverse_reverse] at suffix
  exact suffix

end Text

namespace Page

/-- A summary starts with what a page shows of it. -/
theorem toList_trimmedEnd_prefix (summary : String) :
    (trimmedEnd summary).toList <+: summary.toList := by
  rw [trimmedEnd, onChars, String.toList_ofList]
  exact Text.trimEnd_prefix summary.toList

/-- The prose of a page starts with the summary. -/
theorem trimmedEnd_prefix_opening (summary version : String) :
    (trimmedEnd summary).toList <+: (opening summary version).toList := by
  rw [opening]
  split
  · next empty =>
      rw [String.isEmpty_iff.mp empty]
      exact List.nil_prefix
  · rw [String.append_assoc, String.toList_append]
    exact List.prefix_append _ _

end Page

namespace Component

open Text (HasEmptyLine RepeatsLineEnd MixesLineEnds)

/-- The test of a summary looks for a line end twice in a row. -/
theorem hasEmptyLine_eq_true_iff {summary : String} :
    hasEmptyLine summary = true ↔ RepeatsLineEnd summary.toList := by
  simp [hasEmptyLine, RepeatsLineEnd, Text.lineEnds, Text.occursIn_iff]

/-- A component is valid when its summary passes the test and no name is declared twice among
siblings. -/
theorem check_eq_ok_iff {component : Component} :
    component.check = .ok () ↔
      ¬ RepeatsLineEnd component.summary.toList ∧ component.config.duplicatePath? = none := by
  rw [← hasEmptyLine_eq_true_iff, check, flaw?]
  cases hasEmptyLine component.summary with
  | true => simp
  | false =>
      cases found : component.config.duplicatePath? <;> simp [Field.duplicate?, found]

/-- A valid component declares no name twice among siblings. -/
theorem duplicatePath?_of_check {component : Component} (valid : component.check = .ok ()) :
    component.config.duplicatePath? = none :=
  (check_eq_ok_iff.mp valid).2

/-- A component that declares no name twice is valid exactly when its summary has no line end
twice in a row. These are the components with no empty line in their summaries, and those whose
summaries have empty lines only between a line feed alone and a carriage return with a line feed.
The page of a valid component starts its prose with the summary, and shows no other empty lines
in it than these. -/
theorem check_misses_mixed_lineEnds {component : Component}
    (unique : component.config.HasUniqueNames) :
    let summary := component.summary.toList
    let shown := (Page.trimmedEnd component.summary).toList
    (component.check = .ok () ↔ ¬ RepeatsLineEnd summary) ∧
      ((component.check = .ok () ↔ ¬ HasEmptyLine summary) ↔
        (MixesLineEnds summary → RepeatsLineEnd summary)) ∧
      shown <+: (Page.opening component.summary component.version).toList ∧
      (component.check = .ok () → (HasEmptyLine shown ↔ MixesLineEnds shown)) := by
  intro summary shown
  have accepted : component.check = .ok () ↔ ¬ RepeatsLineEnd summary :=
    check_eq_ok_iff.trans
      (and_iff_left ((Field.duplicatePath?_eq_none_iff_unique component.config).mpr unique))
  refine ⟨accepted, ?_, Page.trimmedEnd_prefix_opening _ _, fun valid => ?_⟩
  · rw [accepted, Text.hasEmptyLine_iff]
    tauto
  · have shownPart : shown <:+: summary := (Page.toList_trimmedEnd_prefix component.summary).isInfix
    rw [Text.hasEmptyLine_iff, or_iff_right]
    exact fun repeats => accepted.mp valid (repeats.of_infix shownPart)

/-- A component with a summary and one field. -/
def summarized (summary : String) : Component where
  name := "http_client"
  role := .output
  summary
  config := .root [.ofType "url" .string]

/-- Lines that end in both ways without an empty line make a valid component, and the page shows
them so. -/
theorem check_summarized_lines :
    (summarized "One.\r\nTwo.\nThree.").config.HasUniqueNames ∧
      (summarized "One.\r\nTwo.\nThree.").check = .ok () ∧
      ¬ HasEmptyLine "One.\r\nTwo.\nThree.".toList := by
  have unique : (summarized "One.\r\nTwo.\nThree.").config.HasUniqueNames :=
    (Field.duplicatePath?_eq_none_iff_unique _).mp rfl
  have valid : (summarized "One.\r\nTwo.\nThree.").check = .ok () := rfl
  obtain ⟨-, exactly, -, -⟩ := check_misses_mixed_lineEnds unique
  refine ⟨unique, valid, (exactly.mpr ?_).mp valid⟩
  rintro ⟨before, after, text, -⟩
  have inside : Text.occursIn ['\n', '\r', '\n'] "One.\r\nTwo.\nThree.".toList = true :=
    Text.occursIn_iff.mpr ⟨before, after, text.symm⟩
  cases inside

/-- An empty line between a line feed alone and a carriage return with a line feed is in a valid
component and on its page. -/
theorem not_check_summarized_mixed :
    (summarized "One.\n\r\nTwo.").config.HasUniqueNames ∧
      (summarized "One.\n\r\nTwo.").check = .ok () ∧
      HasEmptyLine "One.\n\r\nTwo.".toList ∧
      Page.opening "One.\n\r\nTwo." "" = "One.\n\r\nTwo.\n\n" := by
  refine ⟨(Field.duplicatePath?_eq_none_iff_unique _).mp rfl, rfl, ?_, rfl⟩
  exact ⟨['\n'], by decide, ['\r', '\n'], by decide, "One.".toList, "Two.".toList, rfl⟩

end Component

end FieldGuide
