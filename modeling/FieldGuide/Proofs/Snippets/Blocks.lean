import FieldGuide.Page.Tabs
import FieldGuide.Proofs.Snippets
import FieldGuide.Proofs.Yaml.Lines

/-!
# Reading snippets back from a page

The snippets of a page stand in fenced blocks behind a comment line. A reader of fenced blocks
finds exactly these blocks, and gets each snippet back with nothing lost, added or split, save
for the line feed that a block needs before its closing fence: a snippet that does not end with
one gets it on the page.
-/

namespace FieldGuide

open Inspect (IsLine unlines fence)

namespace Page

/-- Whether a text can stand in a fenced block and be read back from it: its lines, the last one
ended, have nothing but line feeds at their ends and no backtick at their starts. -/
def IsFenceable (text : String) : Prop :=
  ∃ lines, (lineEnded text).toList = unlines lines ∧
    ∀ line ∈ lines, IsLine line ∧ Yaml.Unticked line

/-- A line feed is added to a text without one at its end. -/
theorem lineEnded_eq (text : String) :
    lineEnded text = if text.toList.getLast? = some '\n' then text else text ++ "\n" := by
  rw [lineEnded, onChars]
  split
  · exact String.ofList_toList
  · rw [← String.toList_inj]
    simp

/-- The lines of a fenced block. -/
def blockLines (language comment : String) (lines : List (List Char)) : List (List Char) :=
  (fence ++ language.toList) :: (comment.toList :: lines ++ [fence])

/-- A fenced block is written line by line. -/
theorem toList_fencedYaml {language comment text : String} {lines : List (List Char)}
    (written : (lineEnded text).toList = unlines lines) :
    (fencedYaml language comment text).toList = unlines (blockLines language comment lines) := by
  simp [fencedYaml, blockLines, written, unlines, fence]

/-- A block of YAML behind prose is read back with its comment line. -/
theorem bodies_append_block {language comment : String} {prose lines : List (List Char)}
    (closed : fence ++ language.toList ∉ prose) (commented : Yaml.Unticked comment.toList)
    (each : ∀ line ∈ lines, IsLine line ∧ Yaml.Unticked line) (rest : List (List Char)) :
    Inspect.bodies (fence ++ language.toList) none
        (prose ++ (blockLines language comment lines ++ rest)) =
      (comment.toList :: lines) :: Inspect.bodies (fence ++ language.toList) none rest := by
  have inside : ∀ line ∈ comment.toList :: lines, fence.isPrefixOf line = false :=
    List.forall_mem_cons.mpr
      ⟨commented.not_fence, fun line member => (each line member).2.not_fence⟩
  rw [Inspect.bodies_append_prose closed, blockLines, List.cons_append, List.append_assoc,
    List.singleton_append, Inspect.bodies_block inside]

/-- The lines of a fenced block are lines when those inside are. -/
theorem isLine_of_mem_blockLines {language comment : String} {lines : List (List Char)}
    (opens : IsLine (fence ++ language.toList)) (commented : IsLine comment.toList)
    (each : ∀ line ∈ lines, IsLine line ∧ Yaml.Unticked line) :
    ∀ line ∈ blockLines language comment lines, IsLine line := by
  refine List.forall_mem_cons.mpr ⟨opens, List.forall_mem_append.mpr ⟨?_, ?_⟩⟩
  · exact List.forall_mem_cons.mpr ⟨commented, fun line member => (each line member).1⟩
  · exact List.forall_mem_singleton.mpr (by decide)

/-- What stands in a block is its comment line and the text of the block. -/
theorem unlines_body {comment text : String} {lines : List (List Char)}
    (written : (lineEnded text).toList = unlines lines) :
    String.ofList (unlines (comment.toList :: lines)) = comment ++ "\n" ++ lineEnded text := by
  rw [← String.toList_inj]
  simp [Inspect.unlines_cons, written]

/-- The lines of a page before the tab of the common snippet. -/
def tabsStart : List (List Char) :=
  ["<Tabs defaultValue=\"common\" values=\x7b[".toList,
    "  \x7b label: 'Common', value: 'common', \x7d,".toList,
    "  \x7b label: 'Advanced', value: 'advanced', \x7d,".toList,
    "]\x7d>".toList, [], "<TabItem value=\"common\">".toList, []]

/-- The lines between the two tabs. -/
def tabsBetween : List (List Char) :=
  [[], "</TabItem>".toList, "<TabItem value=\"advanced\">".toList, []]

/-- The lines after the tabs. -/
def tabsEnd : List (List Char) := [[], "</TabItem>".toList, "</Tabs>".toList, []]

/-- A page shows snippets that coincide in one block. -/
theorem toList_snippetTabs_of_coincide {snippets : Snippets} (same : snippets.coincide = true)
    {lines : List (List Char)} (written : (lineEnded snippets.common).toList = unlines lines) :
    (snippetTabs snippets).toList =
      unlines ([] ++ (blockLines "yml" "# Config fields, showing default values" lines ++ [[]])) :=
    by
  rw [snippetTabs, if_pos same, String.toList_append, toList_fencedYaml written, List.nil_append,
    Inspect.unlines_append]
  rfl

/-- A page shows snippets that differ in a block each, with the lines of the tabs around
them. -/
theorem toList_snippetTabs_of_apart {snippets : Snippets} (apart : snippets.coincide = false)
    {common advanced : List (List Char)}
    (commonWritten : (lineEnded snippets.common).toList = unlines common)
    (advancedWritten : (lineEnded snippets.advanced).toList = unlines advanced) :
    (snippetTabs snippets).toList =
      unlines (tabsStart ++
        (blockLines "yml" "# Common config fields, showing default values" common ++
          (tabsBetween ++
            (blockLines "yml" "# All config fields, showing default values" advanced ++
              tabsEnd)))) := by
  rw [snippetTabs, if_neg (Bool.eq_false_iff.mp apart)]
  simp only [String.toList_append, toList_fencedYaml commonWritten,
    toList_fencedYaml advancedWritten, Inspect.unlines_append, ← List.append_assoc]
  rfl

/-- The blocks of the snippets of a configuration are read back from the page: one block with
the common snippet when both are the same, and one block for each otherwise. Each has its
comment line and the snippet, with a line feed at its end. -/
theorem fencedBodies_snippetTabs {snippets : Snippets} (common : IsFenceable snippets.common)
    (advanced : IsFenceable snippets.advanced) :
    Inspect.fencedBodies (snippetTabs snippets) "yml" =
      if snippets.coincide then
        ["# Config fields, showing default values" ++ "\n" ++ lineEnded snippets.common]
      else
        ["# Common config fields, showing default values" ++ "\n" ++ lineEnded snippets.common,
          "# All config fields, showing default values" ++ "\n" ++
            lineEnded snippets.advanced] := by
  obtain ⟨commonLines, commonWritten, commonEach⟩ := common
  obtain ⟨advancedLines, advancedWritten, advancedEach⟩ := advanced
  have opens : IsLine (fence ++ "yml".toList) := by decide
  cases same : snippets.coincide with
  | true =>
      have page := toList_snippetTabs_of_coincide same commonWritten
      have single : ∀ line ∈
          [] ++ (blockLines "yml" "# Config fields, showing default values" commonLines ++ [[]]),
          IsLine line := by
        rw [List.nil_append]
        exact List.forall_mem_append.mpr ⟨isLine_of_mem_blockLines opens (by decide) commonEach,
          List.forall_mem_singleton.mpr Inspect.isLine_nil⟩
      rw [Inspect.fencedBodies, page, Inspect.lines_unlines single,
        bodies_append_block List.not_mem_nil (by decide) commonEach, List.map_cons,
        unlines_body commonWritten]
      rfl
  | false =>
      have page := toList_snippetTabs_of_apart same commonWritten advancedWritten
      let block := blockLines "yml" "# Common config fields, showing default values" commonLines
      let other := blockLines "yml" "# All config fields, showing default values" advancedLines
      have single : ∀ line ∈ tabsStart ++ (block ++ (tabsBetween ++ (other ++ tabsEnd))),
          IsLine line := by
        simp only [List.forall_mem_append]
        exact ⟨by decide, isLine_of_mem_blockLines opens (by decide) commonEach, by decide,
          isLine_of_mem_blockLines opens (by decide) advancedEach, by decide⟩
      rw [Inspect.fencedBodies, page, Inspect.lines_unlines single,
        bodies_append_block (by decide) (by decide) commonEach,
        bodies_append_block (by decide) (by decide) advancedEach, List.map_cons, List.map_cons,
        unlines_body commonWritten, unlines_body advancedWritten]
      rfl

end Page

/-- The text of a tree can stand in a fenced block. -/
theorem Tree.isFenceable_yaml (tree : Tree) : Page.IsFenceable tree.yaml :=
  Yaml.exists_lines tree.isWhole_of_mem_documentRows tree.unticked_of_mem_documentRows

namespace Snippets

/-- The blocks on the page of an example's snippets are read back: one with the common snippet
when the snippets coincide, and otherwise one for each. A body is the comment line and the
snippet. Only a snippet whose last value ends open lacks its last line feed, and gets it on the
page. -/
theorem fencedBodies_ofExample {datum : Datum} {tree : Tree} (encoded : datum.toTree = .ok tree)
    (role : Role) (config : Field) (nested : Bool) (options : ViewOptions) :
    ∃ snippets, ofExample role config nested datum options = .ok snippets ∧
      Inspect.fencedBodies (Page.snippetTabs snippets) "yml" =
        (if snippets.coincide then
          ["# Config fields, showing default values" ++ "\n" ++ Page.lineEnded snippets.common]
        else
          ["# Common config fields, showing default values" ++ "\n" ++
              Page.lineEnded snippets.common,
            "# All config fields, showing default values" ++ "\n" ++
              Page.lineEnded snippets.advanced]) ∧
      ∀ filter, Page.lineEnded (snippets.shown filter) =
        if (shownTree role config nested ⟨filter, options⟩ tree).lastText?.any Yaml.endsOpen then
          snippets.shown filter ++ "\n"
        else snippets.shown filter := by
  obtain ⟨snippets, shows, text⟩ := exists_shown_ofExample encoded role config nested options
  have fenceable (filter : Filter) : Page.IsFenceable (snippets.shown filter) := by
    rw [text]
    exact Tree.isFenceable_yaml _
  refine ⟨snippets, shows,
    Page.fencedBodies_snippetTabs (fenceable .common) (fenceable .advanced), fun filter => ?_⟩
  have ends := Tree.getLast?_yaml (shownTree role config nested ⟨filter, options⟩ tree)
  rw [text, Page.lineEnded_eq]
  simp only [ends, Bool.eq_false_iff, ite_not]

/-- A note whose lines start with fences is read back from the page. -/
theorem fencedBodies_fencedNote :
    ∃ snippets, ofExample .input (.root []) false (note "```\n```yml") {} = .ok snippets ∧
      Inspect.fencedBodies (Page.snippetTabs snippets) "yml" =
        ["# Config fields, showing default values\nnote: |-\n  ```\n  ```yml\n"] := by
  have encoded : (note "```\n```yml").toTree = .ok (.mapping [("note", .text "```\n```yml")]) :=
    rfl
  obtain ⟨snippets, shows, bodies, ended⟩ :=
    fencedBodies_ofExample encoded .input (.root []) false {}
  refine ⟨snippets, shows, ?_⟩
  rw [ofExample_of_toTree encoded] at shows
  obtain rfl := Except.ok.inj shows
  have common := ended .common
  rw [if_neg (by decide)] at common
  rw [bodies, if_pos (by decide)]
  exact congrArg (fun body => ["# Config fields, showing default values" ++ "\n" ++ body])
    (common.trans (by decide : _ = "note: |-\n  ```\n  ```yml\n"))

/-- A note that ends with a line separator has a snippet without a line feed at its end. The
body that is read back is longer than the snippet with its comment line. -/
theorem fencedBodies_openNote :
    ∃ snippets, ofExample .input (.root []) false (note "x\ny\u2028") {} = .ok snippets ∧
      snippets.coincide = true ∧
      Inspect.fencedBodies (Page.snippetTabs snippets) "yml" ≠
        ["# Config fields, showing default values" ++ "\n" ++ snippets.common] := by
  have encoded : (note "x\ny\u2028").toTree = .ok (.mapping [("note", .text "x\ny\u2028")]) := rfl
  refine ⟨_, ofExample_of_toTree encoded _ _ _ _, by decide, by decide⟩

end Snippets

end FieldGuide
