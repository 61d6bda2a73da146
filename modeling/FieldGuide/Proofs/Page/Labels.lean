import FieldGuide.Proofs.Page.Tabs
import FieldGuide.Proofs.Text.Scan

/-!
# Labels of tabs

The list of tabs holds the title of each showcase in two string literals, its label and its
value. A title may hold quotes, and backslashes before them or at its end. This module reads a
literal from left to right, as far as the first quote that no backslash takes, and shows that this
is the quote the list puts after the title: no title ends its literal early or goes on past it, so
that the list is read entry by entry as the titles it is written from.
-/

namespace FieldGuide

namespace Text.Scan

/-- A string literal, from after its opening quote. A backslash takes the character after it as
it is, and the first quote that is not taken so closes the literal. -/
def literal : Scan (List Char)
  | [] => none
  | '\x27' :: rest => some ([], rest)
  | '\\' :: c :: rest => (literal rest).map fun (text, after) => (c :: text, after)
  | c :: rest => (literal rest).map fun (text, after) => (c :: text, after)

/-- A character behind a backslash is taken as it is. -/
theorem literal_backslash (c : Char) (rest : List Char) :
    literal ('\\' :: c :: rest) = (literal rest).map fun (text, after) => (c :: text, after) := by
  rw [literal]

/-- A character that is neither a quote nor a backslash stands for itself. -/
theorem literal_cons {c : Char} (noQuote : c ≠ '\x27') (plain : c ≠ '\\') (rest : List Char) :
    literal (c :: rest) = (literal rest).map fun (text, after) => (c :: text, after) := by
  rw [literal]
  · exact noQuote
  · exact fun _ _ backslash => absurd backslash plain

end Text.Scan

namespace Page

open Text (Scan)
open Text.Scan (eatAll literal)

/-- A text with its quotes and backslashes escaped is read up to the quote after it. -/
theorem literal_literalChar_append (text rest : List Char) :
    literal (text.flatMap literalChar ++ '\x27' :: rest) = some (text, rest) := by
  induction text with
  | nil => rfl
  | cons c text inductionHypothesis =>
      rw [List.flatMap_cons, List.append_assoc, literalChar]
      by_cases special : c = '\\' ∨ c = '\x27'
      · rw [if_pos special, List.cons_append, List.singleton_append, Text.Scan.literal_backslash,
          inductionHypothesis]
        rfl
      · rw [not_or] at special
        rw [if_neg (not_or.mpr special), List.singleton_append,
          Text.Scan.literal_cons special.2 special.1, inductionHypothesis]
        rfl

/-- The literal of a title is read as the title. -/
theorem literal_literalText_append (title : String) (rest : List Char) :
    literal ((literalText title).toList ++ '\x27' :: rest) = some (title.toList, rest) := by
  rw [literalText, onChars, String.toList_ofList]
  exact literal_literalChar_append title.toList rest

/-- An entry of the list of tabs, as its label and its value. -/
def tabEntry : Scan (List Char × List Char) := do
  eatAll "  \x7b label: '".toList
  let label ← literal
  eatAll ", value: '".toList
  let value ← literal
  eatAll ", \x7d,\n".toList
  return (label, value)

/-- A number of entries of the list of tabs. -/
def tabEntries : Nat → Scan (List (List Char × List Char))
  | 0 => return []
  | count + 1 => do
      let entry ← tabEntry
      return entry :: (← tabEntries count)

/-- What is read of a showcase in the list of tabs. -/
def titleEntry (shown : Showcase) : List Char × List Char :=
  (shown.title.toList, shown.title.toList)

/-- What the list of tabs writes after the opening quote of a value, before what follows the
entry. -/
def fromValue (shown : Showcase) (after : List Char) : List Char :=
  (literalText shown.title).toList ++ ('\x27' :: (", \x7d,\n".toList ++ after))

/-- What the list of tabs writes after the opening quote of a label, before what follows the
entry. -/
def fromLabel (shown : Showcase) (after : List Char) : List Char :=
  (literalText shown.title).toList ++ ('\x27' :: (", value: '".toList ++ fromValue shown after))

/-- An entry of the list of tabs is its label and its value, each up to its closing quote. -/
theorem toList_showcaseTab_append (shown : Showcase) (after : List Char) :
    (showcaseTab shown).toList ++ after = "  \x7b label: '".toList ++ fromLabel shown after := by
  have between : "', value: '".toList = '\x27' :: ", value: '".toList := by simp
  have ending : "', \x7d,\n".toList = '\x27' :: ", \x7d,\n".toList := by simp
  rw [toList_showcaseTab, between, ending]
  simp only [fromLabel, fromValue, List.append_assoc, List.cons_append]

/-- The label ends at the quote before the value. -/
theorem literal_fromLabel (shown : Showcase) (after : List Char) :
    literal (fromLabel shown after) =
      some (shown.title.toList, ", value: '".toList ++ fromValue shown after) :=
  literal_literalText_append shown.title _

/-- The value ends at the quote before the end of the entry. -/
theorem literal_fromValue (shown : Showcase) (after : List Char) :
    literal (fromValue shown after) = some (shown.title.toList, ", \x7d,\n".toList ++ after) :=
  literal_literalText_append shown.title _

/-- An entry of the list of tabs is read as the title, twice. -/
theorem tabEntry_append (shown : Showcase) (after : List Char) :
    tabEntry ((showcaseTab shown).toList ++ after) = some (titleEntry shown, after) := by
  rw [toList_showcaseTab_append]
  refine Scan.bind_eq_some (Scan.eatAll_append _ _) ?_
  refine Scan.bind_eq_some (literal_fromLabel shown after) ?_
  refine Scan.bind_eq_some (Scan.eatAll_append _ _) ?_
  refine Scan.bind_eq_some (literal_fromValue shown after) ?_
  exact Scan.bind_eq_some (Scan.eatAll_append _ _) rfl

/-- The entries of some showcases in the list of tabs. -/
def tabLines (showcases : List Showcase) : List Char :=
  showcases.flatMap fun shown => (showcaseTab shown).toList

/-- The entries of the list of tabs are read one after the other. -/
theorem tabEntries_append (showcases : List Showcase) (after : List Char) :
    tabEntries showcases.length (tabLines showcases ++ after) =
      some (showcases.map titleEntry, after) := by
  induction showcases with
  | nil => rfl
  | cons shown others inductionHypothesis =>
      have first := tabEntry_append shown (tabLines others ++ after)
      rw [← List.append_assoc] at first
      exact Scan.bind_eq_some first (Scan.bind_eq_some inductionHypothesis rfl)

/-- What stands before the entries of the list of tabs. -/
def tabListStart (first : Showcase) : List Char :=
  ("## Examples\n\n<Tabs defaultValue=\"" ++ attributeText first.title ++
    "\" values=\x7b[\n").toList

/-- What stands after the entries of the list of tabs: the end of the list and the tabs. -/
def tabListEnd (showcases : List Showcase) : List Char :=
  ("]\x7d>\n\n" ++ String.join (showcases.map showcaseItem) ++ "</Tabs>\n\n").toList

/-- The showcases of a page are the list of tabs, and the tabs after it. -/
theorem toList_showcaseTabs {showcases : List Showcase} {first : Showcase}
    (starts : showcases.head? = some first) :
    (showcaseTabs showcases).toList =
      tabListStart first ++ (tabLines showcases ++ tabListEnd showcases) := by
  obtain ⟨others, rfl⟩ := List.head?_eq_some_iff.mp starts
  have entries : (String.join ((first :: others).map showcaseTab)).toList =
      tabLines (first :: others) := by
    rw [String.toList_join, List.flatMap_map, tabLines]
  have written : showcaseTabs (first :: others) =
      "## Examples\n\n<Tabs defaultValue=\"" ++ attributeText first.title ++
        "\" values=\x7b[\n" ++ String.join ((first :: others).map showcaseTab) ++ "]\x7d>\n\n" ++
        String.join ((first :: others).map showcaseItem) ++ "</Tabs>\n\n" := rfl
  simp only [written, tabListStart, tabListEnd, String.toList_append, entries, List.append_assoc]

/-- In the list of tabs, what is read from after the opening quote of the label of a showcase ends
at the closing quote of the label and is the title, and so it is for the value. Read from its
start, the list has an entry for each showcase with the title as label and value, and ends after
the last one. -/
theorem literals_end_with_titles (earlier later : List Showcase) (shown : Showcase) :
    let showcases := earlier ++ shown :: later
    let start := tabListStart (earlier.headD shown)
    let after := tabLines later ++ tabListEnd showcases
    ∃ list label value,
      (showcaseTabs showcases).toList = start ++ list ∧
      list = tabLines earlier ++ ("  \x7b label: '".toList ++ label) ∧
      literal label = some (shown.title.toList, ", value: '".toList ++ value) ∧
      literal value = some (shown.title.toList, ", \x7d,\n".toList ++ after) ∧
      tabEntries showcases.length list =
        some (showcases.map titleEntry, tabListEnd showcases) := by
  intro showcases start after
  have starts : showcases.head? = some (earlier.headD shown) := by
    cases earlier <;> rfl
  have split : tabLines showcases ++ tabListEnd showcases =
      tabLines earlier ++ ("  \x7b label: '".toList ++ fromLabel shown after) := by
    rw [← toList_showcaseTab_append]
    simp only [showcases, after, tabLines, List.flatMap_append, List.flatMap_cons,
      List.append_assoc]
  have entries := tabEntries_append showcases (tabListEnd showcases)
  exact ⟨tabLines showcases ++ tabListEnd showcases, fromLabel shown after, fromValue shown after,
    toList_showcaseTabs starts, split, literal_fromLabel shown after,
    literal_fromValue shown after, entries⟩

/-- A quote behind a backslash and a backslash at the end stay inside of the literal. -/
example : literal ((literalText "it\\'s \\").toList ++ "', \x7d,\n".toList) =
    some ("it\\'s \\".toList, ", \x7d,\n".toList) := by
  decide

end Page

end FieldGuide
