import FieldGuide.Page.Tabs
import FieldGuide.Proofs.Text.Escapes
import Mathlib.Data.List.Infix

/-!
# Tabs of showcases

The title of a showcase stands twice in its section: as a string literal in the list of tabs, and
as the attribute of its own tab, which the list selects by it. The literal tells all titles apart.
The attribute writes `&quot;` for a double quote and leaves all other characters as they are, so
that a title with `&quot;` in it looks like one with a double quote there. This module shows that
titles have the same attribute exactly when they are the same once `&quot;` is read back.
-/

namespace FieldGuide.Page

/-- What is written for a double quote in an attribute. -/
def quoteEntity : List Char := ['&', 'q', 'u', 'o', 't', ';']

/-- A text with a double quote for each `&quot;`, as an attribute is read. -/
def readQuotes : List Char → List Char
  | '&' :: 'q' :: 'u' :: 'o' :: 't' :: ';' :: rest => '"' :: readQuotes rest
  | c :: rest => c :: readQuotes rest
  | [] => []

/-- A text that does not start with `&quot;` keeps its first character. -/
theorem readQuotes_cons {c : Char} {rest : List Char} (plain : ¬ quoteEntity <+: c :: rest) :
    readQuotes (c :: rest) = c :: readQuotes rest := by
  rw [readQuotes]
  rintro others rfl rfl
  exact plain (List.prefix_append quoteEntity others)

/-- A text without `&quot;` is read as it is. -/
theorem readQuotes_eq_self {text : List Char} (plain : ¬ quoteEntity <:+: text) :
    readQuotes text = text := by
  induction text with
  | nil => rfl
  | cons c rest inductionHypothesis =>
      rw [List.infix_cons_iff, not_or] at plain
      rw [readQuotes_cons plain.1, inductionHypothesis plain.2]

/-- The attribute of a text does not tell `&quot;` and a double quote apart. -/
theorem attribute_readQuotes (text : List Char) :
    (readQuotes text).flatMap attributeChar = text.flatMap attributeChar := by
  induction text using readQuotes.induct with
  | case1 rest inductionHypothesis =>
      simp [readQuotes, attributeChar, inductionHypothesis]
  | case2 c rest plain inductionHypothesis =>
      rw [readQuotes, List.flatMap_cons, inductionHypothesis, List.flatMap_cons]
      exact plain
  | case3 => rfl

/-- What starts an attribute without an ampersand starts its text. -/
theorem prefix_of_prefix_attribute {start text : List Char} (noEntity : '&' ∉ start)
    (starts : start <+: text.flatMap attributeChar) : start <+: text := by
  induction start generalizing text with
  | nil => exact List.nil_prefix
  | cons d start inductionHypothesis =>
      rw [List.mem_cons, not_or] at noEntity
      cases text with
      | nil => simp at starts
      | cons c text =>
          by_cases quote : c = '"'
          · have first : d = '&' := by
              simp [attributeChar, quote, List.cons_prefix_cons] at starts
              exact starts.1
            exact absurd first.symm noEntity.1
          · rw [List.flatMap_cons, attributeChar, if_neg quote, List.singleton_append,
              List.cons_prefix_cons] at starts
            exact List.cons_prefix_cons.mpr
              ⟨starts.1, inductionHypothesis noEntity.2 starts.2⟩

/-- An attribute is read as its text is. -/
theorem readQuotes_attribute (text : List Char) :
    readQuotes (text.flatMap attributeChar) = readQuotes text := by
  induction text using readQuotes.induct with
  | case1 rest inductionHypothesis =>
      simp [readQuotes, attributeChar, inductionHypothesis]
  | case2 c rest plain inductionHypothesis =>
      by_cases quote : c = '"'
      · simp [quote, readQuotes, attributeChar, inductionHypothesis]
      · have split : (c :: rest).flatMap attributeChar = c :: rest.flatMap attributeChar := by
          rw [List.flatMap_cons, attributeChar, if_neg quote, List.singleton_append]
        have textPlain : ¬ quoteEntity <+: c :: rest := by
          rintro ⟨others, same⟩
          obtain ⟨rfl, rfl⟩ := List.cons.inj same
          exact plain others rfl rfl
        -- What follows the ampersand of an entity has none, so that no quote is written in it.
        have attributePlain : ¬ quoteEntity <+: c :: rest.flatMap attributeChar := by
          intro starts
          obtain ⟨first, others⟩ := List.cons_prefix_cons.mp starts
          refine textPlain (List.cons_prefix_cons.mpr ⟨first, ?_⟩)
          exact prefix_of_prefix_attribute (by decide) others
        rw [split, readQuotes_cons attributePlain, readQuotes_cons textPlain, inductionHypothesis]
  | case3 => rfl

/-- Two texts have the same attribute exactly when they are read as the same. -/
theorem attributeText_eq_iff {left right : String} :
    attributeText left = attributeText right ↔
      readQuotes left.toList = readQuotes right.toList := by
  have chars : attributeText left = attributeText right ↔
      left.toList.flatMap attributeChar = right.toList.flatMap attributeChar :=
    ⟨String.ofList_injective, congrArg String.ofList⟩
  rw [chars]
  constructor
  · intro same
    rw [← readQuotes_attribute, same, readQuotes_attribute]
  · intro same
    rw [← attribute_readQuotes, same, attribute_readQuotes]

/-- A string literal is read as its text: exactly the quotes and backslashes are marked. -/
theorem marked_literal_append (text rest : List Char) :
    Text.marked (text.flatMap literalChar ++ rest) =
      text.map (fun c => (c, decide (c = '\\' ∨ c = '\x27'))) ++ Text.marked rest := by
  induction text with
  | nil => rfl
  | cons c text inductionHypothesis =>
      rw [List.flatMap_cons, List.append_assoc, literalChar]
      by_cases special : c = '\\' ∨ c = '\x27'
      · simp [special, inductionHypothesis]
      · rw [not_or] at special
        simp [special, Text.marked_cons, inductionHypothesis]

/-- Different texts have different string literals. -/
theorem literalText_injective {left right : String} (same : literalText left = literalText right) :
    left = right := by
  have read (text : List Char) :
      (Text.marked (text.flatMap literalChar)).map Prod.fst = text := by
    have whole := marked_literal_append text []
    rw [List.append_nil] at whole
    simp [whole, Text.marked, Function.comp_def]
  have chars : left.toList.flatMap literalChar = right.toList.flatMap literalChar :=
    String.ofList_injective same
  rw [← String.toList_inj, ← read left.toList, chars, read]

/-- The characters of an entry of the list of tabs. -/
theorem toList_showcaseTab (shown : Showcase) :
    (showcaseTab shown).toList =
      "  \x7b label: '".toList ++ ((literalText shown.title).toList ++
        ("', value: '".toList ++ ((literalText shown.title).toList ++ "', \x7d,\n".toList))) := by
  simp only [showcaseTab, String.toList_append, List.append_assoc]

/-- Different titles have different entries in the list of tabs. -/
theorem title_eq_of_showcaseTab {left right : Showcase}
    (same : showcaseTab left = showcaseTab right) : left.title = right.title := by
  have chars := congrArg String.toList same
  rw [toList_showcaseTab, toList_showcaseTab, List.append_cancel_left_eq] at chars
  have lengths := congrArg List.length chars
  simp only [List.length_append] at lengths
  have labels := (List.append_inj chars (by omega)).1
  exact literalText_injective (String.toList_inj.mp labels)

/-- What stands between the first two double quotes of a text. -/
def firstQuoted (text : String) : List Char :=
  (text.toList.dropWhile (· != '"')).tail.takeWhile (· != '"')

/-- No double quote stands in an attribute. -/
theorem quote_not_mem_attributeText (text : String) : '"' ∉ (attributeText text).toList := by
  rw [attributeText, onChars, String.toList_ofList, List.mem_flatMap]
  rintro ⟨c, -, inside⟩
  rw [attributeChar] at inside
  split at inside
  · exact absurd inside (by decide)
  · next noQuote => exact noQuote (List.mem_singleton.mp inside).symm

/-- An attribute between the first double quote of a text and the next one is the first text
between two of them. -/
theorem firstQuoted_attribute {opening closing : String} {before after : List Char}
    (opens : opening.toList = before ++ ['"']) (noQuote : '"' ∉ before)
    (closes : closing.toList = '"' :: after) (text rest : String) :
    firstQuoted (opening ++ attributeText text ++ closing ++ rest) =
      (attributeText text).toList := by
  have passes {chars : List Char} (noQuote : '"' ∉ chars) : ∀ c ∈ chars, (c != '"') = true := by
    intro c member
    simpa using fun same : c = '"' => noQuote (same ▸ member)
  have value := passes (quote_not_mem_attributeText text)
  simp [firstQuoted, opens, closes, List.dropWhile_append_of_pos (passes noQuote),
    List.takeWhile_append_of_pos value]

/-- The value of the tab of a showcase, as the tab writes it. -/
def tabValue (shown : Showcase) : List Char := firstQuoted (showcaseItem shown)

/-- The value of a tab is the attribute of its title. -/
theorem tabValue_eq (shown : Showcase) : tabValue shown = (attributeText shown.title).toList := by
  have opens : "<TabItem value=\"".toList = "<TabItem value=".toList ++ ['"'] := by simp
  have closes : "\">\n\n".toList = '"' :: ">\n\n".toList := by simp
  obtain ⟨rest, split⟩ : ∃ rest, showcaseItem shown =
      "<TabItem value=\"" ++ attributeText shown.title ++ "\">\n\n" ++ rest :=
    ⟨_, String.append_assoc.trans String.append_assoc⟩
  exact (congrArg firstQuoted split).trans
    (firstQuoted_attribute opens (by simp) closes shown.title rest)

/-- The value of the tab that is open by default is the attribute of the first title. -/
theorem firstQuoted_showcaseTabs (first : Showcase) (others : List Showcase) :
    firstQuoted (showcaseTabs (first :: others)) = (attributeText first.title).toList := by
  have opens : "## Examples\n\n<Tabs defaultValue=\"".toList =
      "## Examples\n\n<Tabs defaultValue=".toList ++ ['"'] := by simp
  have closes : "\" values=\x7b[\n".toList = '"' :: " values=\x7b[\n".toList := by simp
  obtain ⟨rest, split⟩ : ∃ rest, showcaseTabs (first :: others) =
      "## Examples\n\n<Tabs defaultValue=\"" ++ attributeText first.title ++
        "\" values=\x7b[\n" ++ rest :=
    ⟨_, String.append_assoc.trans (String.append_assoc.trans String.append_assoc)⟩
  exact (congrArg firstQuoted split).trans
    (firstQuoted_attribute opens (by simp) closes first.title rest)

/-- Tabs have the same value exactly when their titles are read as the same. -/
theorem tabValue_eq_iff {left right : Showcase} :
    tabValue left = tabValue right ↔
      readQuotes left.title.toList = readQuotes right.title.toList := by
  rw [tabValue_eq, tabValue_eq, String.toList_inj, attributeText_eq_iff]

/-- Whether showcases of different titles have tabs of different values and different entries in
the list of tabs. -/
def KeepsTabsApart (showcases : List Showcase) : Prop :=
  ∀ left ∈ showcases, ∀ right ∈ showcases, left.title ≠ right.title →
    tabValue left ≠ tabValue right ∧ showcaseTab left ≠ showcaseTab right

/-- The list of tabs has different entries for different titles. The tabs have different values
exactly when no two different titles are the same once `&quot;` is read as a double quote, as when
none holds `&quot;`, and the tab that is open by default has the values of all whose titles are
read like the first. -/
theorem keepsTabsApart_iff (showcases : List Showcase) :
    (∀ left ∈ showcases, ∀ right ∈ showcases, left.title ≠ right.title →
        showcaseTab left ≠ showcaseTab right) ∧
      (KeepsTabsApart showcases ↔
        ∀ left ∈ showcases, ∀ right ∈ showcases, left.title ≠ right.title →
          readQuotes left.title.toList ≠ readQuotes right.title.toList) ∧
      ((∀ shown ∈ showcases, ¬ quoteEntity <:+: shown.title.toList) →
        KeepsTabsApart showcases) ∧
      ∀ first ∈ showcases.head?, ∀ shown ∈ showcases,
        firstQuoted (showcaseTabs showcases) = tabValue shown ↔
          readQuotes first.title.toList = readQuotes shown.title.toList := by
  have entries : ∀ left ∈ showcases, ∀ right ∈ showcases, left.title ≠ right.title →
      showcaseTab left ≠ showcaseTab right :=
    fun left _ right _ differ same => differ (title_eq_of_showcaseTab same)
  have exactly : KeepsTabsApart showcases ↔
      ∀ left ∈ showcases, ∀ right ∈ showcases, left.title ≠ right.title →
        readQuotes left.title.toList ≠ readQuotes right.title.toList := by
    refine forall₂_congr fun left leftMember => forall₂_congr fun right rightMember =>
      forall_congr' fun differ => ?_
    rw [and_iff_left (entries left leftMember right rightMember differ), ne_eq, tabValue_eq_iff]
  refine ⟨entries, exactly, fun plain => exactly.mpr ?_, ?_⟩
  · intro left leftMember right rightMember differ same
    rw [readQuotes_eq_self (plain left leftMember),
      readQuotes_eq_self (plain right rightMember)] at same
    exact differ (String.toList_inj.mp same)
  · intro first isFirst shown _
    obtain ⟨rest, rfl⟩ := List.head?_eq_some_iff.mp isFirst
    rw [firstQuoted_showcaseTabs, ← tabValue_eq, tabValue_eq_iff]

/-- Titles with quotes, apostrophes and ampersands have tabs of their own. -/
theorem keepsTabsApart_quoted :
    (∀ shown ∈ [(⟨"Bob's \"best\"", "", ""⟩ : Showcase), ⟨"Bob's &best;", "", ""⟩],
        ¬ quoteEntity <:+: shown.title.toList) ∧
      KeepsTabsApart [⟨"Bob's \"best\"", "", ""⟩, ⟨"Bob's &best;", "", ""⟩] := by
  have plain : ∀ shown ∈ [(⟨"Bob's \"best\"", "", ""⟩ : Showcase), ⟨"Bob's &best;", "", ""⟩],
      ¬ quoteEntity <:+: shown.title.toList := by
    decide
  exact ⟨plain, (keepsTabsApart_iff _).2.2.1 plain⟩

/-- A title with `&quot;` has the tab of the title with double quotes, which is open by default
when either is the first. -/
theorem not_keepsTabsApart_entity :
    let plain : Showcase := ⟨"Say \"hi\"", "", ""⟩
    let entity : Showcase := ⟨"Say &quot;hi&quot;", "", ""⟩
    plain.title ≠ entity.title ∧ ¬ KeepsTabsApart [plain, entity] ∧
      tabValue plain = "Say &quot;hi&quot;".toList ∧ tabValue entity = "Say &quot;hi&quot;".toList ∧
      firstQuoted (showcaseTabs [plain, entity]) = "Say &quot;hi&quot;".toList := by
  intro plain entity
  have differ : plain.title ≠ entity.title := by decide
  have plainText : (attributeText plain.title).toList = "Say &quot;hi&quot;".toList := by decide
  have entityText : (attributeText entity.title).toList = "Say &quot;hi&quot;".toList := by decide
  have plainValue := (tabValue_eq plain).trans plainText
  have entityValue := (tabValue_eq entity).trans entityText
  have openValue := (firstQuoted_showcaseTabs plain [entity]).trans plainText
  refine ⟨differ, fun keeps => ?_, plainValue, entityValue, openValue⟩
  have apart := keeps plain (by simp) entity (by simp) differ
  exact apart.1 (plainValue.trans entityValue.symm)

end FieldGuide.Page
