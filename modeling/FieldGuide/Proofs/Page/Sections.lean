import FieldGuide.Field.Edit
import FieldGuide.Page
import FieldGuide.Proofs.Page.Options

/-!
# Sections of a page

A page is put together from sections without a look at what stands between them: each section
brings the empty line after it along, and a section with nothing to show is the empty string. This
module shows it for all sections and all texts in them. One of them has an exception: a summary of
white space only is taken for one to show, and when no version follows it, nothing is shown but
the empty line.
-/

namespace FieldGuide.Page

/-- Whether a text has a character that is not white space. -/
def IsVisible (text : String) : Prop := ∃ c ∈ text.toList, Text.isBlank c = false

/-- Whether a text ends with an empty line. -/
def IsClosed (text : String) : Prop := ['\n', '\n'] <:+ text.toList

/-- A complete block: it shows something and ends with an empty line. -/
structure IsBlock (text : String) : Prop where
  visible : IsVisible text
  closed : IsClosed text

/-- Whether a section is a complete block when there is something to show and absent
otherwise. -/
structure Shows (part : String) (something : Prop) : Prop where
  block : something → IsBlock part
  absent : ¬ something → part = ""

instance (text : String) : Decidable (IsVisible text) :=
  decidable_of_iff (text.toList.any fun c => !Text.isBlank c) (by simp [IsVisible])

instance (text : String) : Decidable (IsClosed text) :=
  inferInstanceAs (Decidable (['\n', '\n'] <:+ text.toList))

instance (text : String) : Decidable (IsBlock text) :=
  decidable_of_iff (IsVisible text ∧ IsClosed text)
    ⟨fun both => ⟨both.1, both.2⟩, fun block => ⟨block.visible, block.closed⟩⟩

section Blocks

variable {text more : String}

/-- An end with an empty line is one after any text. -/
theorem IsClosed.after (closed : IsClosed text) (start : String) : IsClosed (start ++ text) := by
  rw [IsClosed, String.toList_append]
  exact closed.trans (List.suffix_append _ _)

/-- A text that ends with an empty line does so before nothing and before another such text. -/
theorem IsClosed.append (closed : IsClosed text) (moreClosed : more = "" ∨ IsClosed more) :
    IsClosed (text ++ more) := by
  rcases moreClosed with rfl | moreClosed
  · rwa [String.append_empty]
  · exact moreClosed.after text

/-- Parts one after the other end with an empty line when the first and all that are shown do. -/
theorem IsClosed.append_join {parts : List String} (closed : IsClosed text)
    (each : ∀ part ∈ parts, part = "" ∨ IsClosed part) :
    IsClosed (text ++ String.join parts) := by
  induction parts generalizing text with
  | nil =>
      rw [String.join_nil]
      exact closed.append (.inl rfl)
  | cons part parts inductionHypothesis =>
      obtain ⟨first, others⟩ := List.forall_mem_cons.mp each
      rw [String.join_cons, ← String.append_assoc]
      exact inductionHypothesis (closed.append first) others

/-- The empty text shows nothing. -/
theorem IsVisible.ne_empty (visible : IsVisible text) : text ≠ "" := by
  rintro rfl
  obtain ⟨c, member, -⟩ := visible
  cases member

/-- What is visible in a text is so after and before other texts. -/
theorem IsVisible.append (visible : IsVisible text) (start more : String) :
    IsVisible (start ++ text ++ more) := by
  obtain ⟨c, member, shown⟩ := visible
  refine ⟨c, ?_, shown⟩
  rw [String.toList_append, String.toList_append]
  exact List.mem_append_left _ (List.mem_append_right _ member)

/-- A block is one after any text. -/
theorem IsBlock.after (block : IsBlock text) (start : String) : IsBlock (start ++ text) where
  visible := by simpa using block.visible.append start ""
  closed := block.closed.after start

/-- A visible text with an empty line after it is a block. -/
theorem IsVisible.isBlock (visible : IsVisible text) : IsBlock (text ++ "\n\n") where
  visible := by simpa using visible.append "" "\n\n"
  closed := IsClosed.after (by decide : IsClosed "\n\n") text

/-- A section shows what there is to show or is absent. -/
theorem Shows.absent_or_isBlock {something : Prop} (shows : Shows text something) :
    text = "" ∨ IsBlock text :=
  (Classical.em something).elim (fun filled => .inr (shows.block filled))
    fun empty => .inl (shows.absent empty)

/-- A block goes on with sections that are blocks or absent. -/
theorem IsBlock.append (block : IsBlock text) (next : more = "" ∨ IsBlock more) :
    IsBlock (text ++ more) where
  visible := by simpa using block.visible.append "" more
  closed := block.closed.append (next.imp_right IsBlock.closed)

end Blocks

/-! ## Prose -/

/-- White space at the end of a text is not shown: what is left ends with a visible character, or
is empty when the whole text is white space. -/
theorem trimmedEnd_shows (text : String) :
    (IsVisible text → IsVisible (trimmedEnd text)) ∧ (¬ IsVisible text → trimmedEnd text = "") := by
  rw [trimmedEnd, onChars, Text.trimEnd]
  have blank : (∀ c ∈ text.toList, Text.isBlank c = true) ↔ ¬ IsVisible text := by
    simp [IsVisible]
  have empty : text.toList.reverse.dropWhile Text.isBlank = [] ↔ ¬ IsVisible text := by
    rw [List.dropWhile_eq_nil_iff, ← blank]
    simp
  have head := List.head?_dropWhile_not Text.isBlank text.toList.reverse
  cases left : text.toList.reverse.dropWhile Text.isBlank with
  | nil => exact ⟨fun visible => absurd visible (empty.mp left), fun _ => rfl⟩
  | cons c rest =>
      rw [left] at head empty
      refine ⟨fun _ => ⟨c, by simp, head⟩, fun hidden => ?_⟩
      exact absurd (empty.mpr hidden) (List.cons_ne_nil c rest)

/-- The long description is shown when it has a visible character. -/
theorem longDescription_shows (description : String) :
    Shows (longDescription description) (IsVisible description) := by
  have sameVisible : IsVisible (fromFirstLine description) ↔ IsVisible description := by
    rw [IsVisible, IsVisible, fromFirstLine, onChars, String.toList_ofList]
    split
    · next rest same => simp [same, Text.isBlank]
    · rfl
  have body := trimmedEnd_shows (fromFirstLine description)
  rw [sameVisible] at body
  have written : longDescription description =
      if (trimmedEnd (fromFirstLine description)).isEmpty then ""
      else trimmedEnd (fromFirstLine description) ++ "\n\n" := rfl
  constructor
  · intro visible
    have filled : trimmedEnd (fromFirstLine description) ≠ "" := (body.1 visible).ne_empty
    rw [written, if_neg (mt String.isEmpty_iff.mp filled)]
    exact (body.1 visible).isBlock
  · intro hidden
    rw [written, body.2 hidden]
    rfl

/-- The summary and the version are a block when there is one to show. Otherwise they are absent
with an empty summary, and an empty line with one of white space. -/
theorem opening_shows (summary version : String) :
    (IsVisible summary ∨ version ≠ "" → IsBlock (opening summary version)) ∧
      (¬ (IsVisible summary ∨ version ≠ "") →
        opening summary version = if summary = "" then "" else "\n\n") := by
  by_cases versioned : version = ""
  · have written : opening summary version =
        if summary = "" then "" else trimmedEnd summary ++ "\n\n" := by
      rw [opening, versioned, if_pos (String.isEmpty_iff.mpr rfl), String.append_empty]
      exact if_congr String.isEmpty_iff rfl rfl
    rw [written]
    constructor
    · intro something
      have visible := something.resolve_right (not_not_intro versioned)
      rw [if_neg visible.ne_empty]
      exact ((trimmedEnd_shows summary).1 visible).isBlock
    · intro nothing
      rw [(trimmedEnd_shows summary).2 (not_or.mp nothing).1, String.empty_append]
  · have ending : IsBlock ".\n\n" := by decide
    refine ⟨fun _ => ?_, fun nothing => absurd versioned (not_or.mp nothing).2⟩
    rw [opening, if_neg (mt String.isEmpty_iff.mp versioned)]
    exact (ending.after _).after _

/-- Whatever they are, the summary and the version end with an empty line or are absent. -/
theorem opening_absent_or_isClosed (summary version : String) :
    opening summary version = "" ∨ IsClosed (opening summary version) := by
  obtain ⟨block, nothing⟩ := opening_shows summary version
  by_cases something : IsVisible summary ∨ version ≠ ""
  · exact .inr (block something).closed
  · rw [nothing something]
    split
    · exact .inl rfl
    · exact .inr (by decide)

/-! ## Blocks of the page -/

/-- The metadata is a block. -/
theorem isBlock_metadataBlock (component : Component) : IsBlock (metadataBlock component) :=
  IsBlock.after (by decide : IsBlock "---\n\n") _

/-- The note on the status is shown for components that are not stable. -/
theorem stabilityNote_shows (status : Status) :
    Shows (stabilityNote status) (status ≠ .stable) := by
  have note (name title body : String) : IsBlock (admonition name title body) :=
    IsBlock.after (by decide : IsBlock "\n:::\n\n") _
  cases status with
  | stable => exact ⟨fun differ => absurd rfl differ, fun _ => rfl⟩
  | beta | experimental | deprecated =>
      exact ⟨fun _ => note _ _ _, fun same => absurd (by decide) same⟩

/-- A fenced block with an empty line after it is a block. -/
theorem isBlock_fencedYaml (language comment yaml : String) :
    IsBlock (fencedYaml language comment yaml ++ "\n") := by
  rw [fencedYaml, String.append_assoc]
  exact IsBlock.after (by decide : IsBlock ("```\n" ++ "\n")) _

/-- The snippets are a block. -/
theorem isBlock_snippetTabs (snippets : Snippets) : IsBlock (snippetTabs snippets) := by
  rw [snippetTabs]
  split
  · exact isBlock_fencedYaml _ _ _
  · exact IsBlock.after (by decide : IsBlock "\n</TabItem>\n</Tabs>\n\n") _

/-- The showcases are shown when there are any. -/
theorem showcaseTabs_shows (showcases : List Showcase) :
    Shows (showcaseTabs showcases) (showcases ≠ []) := by
  cases showcases with
  | nil => exact ⟨fun filled => absurd rfl filled, fun _ => rfl⟩
  | cons first others =>
      have block : IsBlock (showcaseTabs (first :: others)) :=
        IsBlock.after (by decide : IsBlock "</Tabs>\n\n") _
      exact ⟨fun _ => block, fun empty => absurd (List.cons_ne_nil first others) empty⟩

/-! ## The field reference -/

/-- The options of a field are shown when it has any. -/
theorem optionsText_shows (field : Field) :
    Shows (optionsText field) (field.annotatedOptions ≠ [] ∨ field.options ≠ []) := by
  by_cases annotated : field.annotatedOptions = []
  · have written : optionsText field = if !field.options.isEmpty then
        "Options: " ++ ", ".intercalate (field.options.map fun option => "`" ++ option ++ "`") ++
          ".\n\n" else "" := by
      rw [optionsText, annotated]
      rfl
    rw [written]
    by_cases options : field.options = []
    · rw [if_neg (by simp [options])]
      exact ⟨fun any => any.elim (absurd annotated) (absurd options), fun _ => rfl⟩
    · rw [if_pos (by simpa using options)]
      have block : IsBlock ".\n\n" := by decide
      exact ⟨fun _ => block.after _, fun bare => absurd (.inr options) bare⟩
  · refine ⟨fun _ => ⟨⟨'|', ?_, by decide⟩, ?_⟩, fun bare => absurd (.inl annotated) bare⟩
    · rw [toList_optionsText annotated]
      exact List.mem_cons_self
    · -- The last line of the table is ended, and the empty line after it, too.
      obtain ⟨lines, last, same⟩ : ∃ lines last,
          tableHead ++ field.annotatedOptions.map rowLine = lines ++ [last] :=
        (List.eq_nil_or_concat' _).resolve_left (by simp [tableHead])
      rw [IsClosed, toList_optionsText annotated, same, Inspect.unlines_append,
        Inspect.unlines_append]
      exact ⟨Inspect.unlines lines ++ last, by simp [Inspect.unlines]⟩

/-- An entry of the field reference is a block. -/
theorem isBlock_referenceItem (entry : ReferenceEntry) : IsBlock (referenceItem entry) := by
  have typeEnd : IsBlock "`\n\n" := by decide
  have versionEnd : IsBlock " or newer\n\n" := by decide
  -- What stands before the type is followed by it, and so need not be looked at.
  refine .append
    (.append (.append (.append (typeEnd.after _) ?default) ?version) ?options) ?examples
  case default =>
    cases entry.defaultText with
    | none => exact .inl rfl
    | some text => exact .inr (typeEnd.after _)
  case version =>
    split
    · exact .inl rfl
    · exact .inr (versionEnd.after _)
  case options => exact (optionsText_shows entry.field).absent_or_isBlock
  case examples =>
    split
    · exact .inl rfl
    · exact .inr (isBlock_fencedYaml _ _ _)

/-- The field reference is a block. -/
theorem isBlock_referenceSection (entries : List ReferenceEntry) :
    IsBlock (referenceSection entries) := by
  have heading : IsBlock "## Fields\n\n" := by decide
  have visible := heading.visible.append "" (String.join (entries.map referenceItem))
  rw [String.empty_append] at visible
  refine ⟨visible, heading.closed.append_join ?_⟩
  rw [List.forall_mem_map]
  exact fun entry _ => .inr (isBlock_referenceItem entry).closed

/-! ## The page -/

/-- The sections of a page before the footnotes. -/
def parts (component : Component) (snippets : Snippets) (settings : Settings) : List String :=
  let entries := component.config.reference
  [metadataBlock component, preamble, stabilityNote component.status,
    opening component.summary component.version, snippetTabs snippets,
    longDescription component.description,
    if isInline entries settings then referenceSection entries else "",
    showcaseTabs component.showcases,
    if settings.inlineFieldLimit.toNat < entries.length then referenceSection entries else ""]

/-- A page is its sections, one after the other, and the footnotes. -/
theorem assemble_eq_join (component : Component) (snippets : Snippets) (settings : Settings) :
    assemble component snippets settings =
      String.join (parts component snippets settings) ++ closing component.footnotes := by
  simp only [assemble, parts, String.join_cons, String.join_nil, String.append_assoc,
    String.append_empty]

/-- All sections before the footnotes end with an empty line or are absent, whatever they show. -/
theorem absent_or_isClosed_of_mem_parts (component : Component) (snippets : Snippets)
    (settings : Settings) :
    ∀ part ∈ parts component snippets settings, part = "" ∨ IsClosed part := by
  have closes {part : String} (shown : part = "" ∨ IsBlock part) : part = "" ∨ IsClosed part :=
    shown.imp_right IsBlock.closed
  have preambleBlock : IsBlock preamble := by
    rw [preamble, String.append_assoc]
    exact IsBlock.after (by decide) _
  have reference (condition : Prop) [Decidable condition] :
      (if condition then referenceSection component.config.reference else "") = "" ∨
        IsClosed (if condition then referenceSection component.config.reference else "") := by
    split
    · exact .inr (isBlock_referenceSection _).closed
    · exact .inl rfl
  simp only [parts, List.forall_mem_cons]
  exact ⟨closes (.inr (isBlock_metadataBlock component)), closes (.inr preambleBlock),
    closes (stabilityNote_shows component.status).absent_or_isBlock,
    opening_absent_or_isClosed component.summary component.version,
    closes (.inr (isBlock_snippetTabs snippets)),
    closes (longDescription_shows component.description).absent_or_isBlock, reference _,
    closes (showcaseTabs_shows component.showcases).absent_or_isBlock, reference _,
    List.forall_mem_nil _⟩

/-- After the first sections of a page, the next one starts a line after an empty line. -/
theorem isClosed_join_of_prefix {component : Component} {snippets : Snippets} {settings : Settings}
    {before : List String} (starts : before <+: parts component snippets settings) :
    before = [] ∨ IsClosed (String.join before) := by
  cases before with
  | nil => exact .inl rfl
  | cons first others =>
      have each := absent_or_isClosed_of_mem_parts component snippets settings
      obtain ⟨rfl, othersStart⟩ := List.cons_prefix_cons.mp starts
      have closed := (isBlock_metadataBlock component).closed
      rw [String.join_cons]
      refine .inr (closed.append_join fun part member => each part ?_)
      exact List.mem_cons_of_mem _ (othersStart.subset member)

/-- Each section of a page is a complete block when there is something to show and absent
otherwise. Only a summary that is white space but not empty, with no version after it, is neither:
an empty line is left of it. The page is its sections one after the other, with the footnotes at
the end, so that what follows the first of them starts a line after an empty line. -/
theorem sections_complete_iff (component : Component) (snippets : Snippets) (settings : Settings)
    (entries : List ReferenceEntry) :
    let summary := component.summary
    let version := component.version
    (IsBlock (metadataBlock component) ∧
        Shows (stabilityNote component.status) (component.status ≠ .stable) ∧
        IsBlock (snippetTabs snippets) ∧
        Shows (longDescription component.description) (IsVisible component.description) ∧
        Shows (showcaseTabs component.showcases) (component.showcases ≠ []) ∧
        IsBlock (referenceSection entries)) ∧
      ((opening summary version = "" ∨ IsBlock (opening summary version)) ↔
        IsVisible summary ∨ version ≠ "" ∨ summary = "") ∧
      assemble component snippets settings =
        String.join (parts component snippets settings) ++ closing component.footnotes ∧
      ∀ before, before <+: parts component snippets settings →
        before = [] ∨ IsClosed (String.join before) := by
  intro summary version
  refine ⟨⟨isBlock_metadataBlock component, stabilityNote_shows component.status,
    isBlock_snippetTabs snippets, longDescription_shows component.description,
    showcaseTabs_shows component.showcases, isBlock_referenceSection entries⟩, ?_,
    assemble_eq_join component snippets settings, fun before => isClosed_join_of_prefix⟩
  obtain ⟨block, nothing⟩ := opening_shows summary version
  rw [← or_assoc]
  by_cases something : IsVisible summary ∨ version ≠ ""
  · exact iff_of_true (.inr (block something)) (.inl something)
  · rw [nothing something, or_iff_right something]
    split
    · next empty => exact iff_of_true (.inl rfl) empty
    · next filled => exact iff_of_false (by decide) filled

/-- A component without fields. -/
def plainCache (summary version : String) : Component where
  name := "local"
  role := .cache
  summary
  version
  config := .root []

/-- Behind a summary of white space, the version is still shown in a block. -/
theorem sections_complete_versioned :
    (plainCache " " "1.2.0").version ≠ "" ∧ opening " " "1.2.0" ≠ "" ∧
      IsBlock (opening " " "1.2.0") := by
  have versioned : (plainCache " " "1.2.0").version ≠ "" := by decide
  have shown : opening " " "1.2.0" ≠ "" := by decide
  obtain ⟨-, exactly, -, -⟩ :=
    sections_complete_iff (plainCache " " "1.2.0") ⟨"", ""⟩ {} []
  exact ⟨versioned, shown, (exactly.mpr (.inr (.inl versioned))).resolve_left shown⟩

/-- A valid component with a space for its summary has an empty line on its page for it. -/
theorem not_isBlock_opening_blank :
    (plainCache " " "").check = .ok () ∧ opening " " "" = "\n\n" ∧ opening " " "" ≠ "" ∧
      ¬ IsBlock (opening " " "") := by
  exact ⟨rfl, by decide, by decide, by decide⟩

end FieldGuide.Page
