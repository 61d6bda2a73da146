import FieldGuide.Page.Tabs
import FieldGuide.Proofs.Snippets.Nesting
import FieldGuide.Proofs.Yaml.Margin

/-!
# Snippets inside fenced blocks

A page shows a snippet in a fenced block, and the block ends with its last line unless a
line of the snippet closes it before. This module shows which snippets have such a line:
those with a literal block two columns from the margin whose text holds a fence. A nested
snippet of a mapping with entries has no literal block there.
-/

namespace FieldGuide

open Text (markdownLines closesFence)

namespace Page

/-- A comment on one line. -/
def isComment (comment : String) : Bool :=
  comment.toList.head? = some '#' && !comment.toList.any Text.endsLine

/-- The lines of a fenced block from the first one on that closes it. -/
def fromClosingLine (block : String) : List (List Char) :=
  (markdownLines block.toList).tail.dropWhile fun line => !closesFence line

/-- The line feed that ends a text adds no line that closes a block. -/
theorem exists_lineEnded (text : String) :
    ∃ body, (lineEnded text).toList = body ++ ['\n'] ∧
      (markdownLines body).any closesFence = (markdownLines text.toList).any closesFence := by
  rw [lineEnded, onChars, String.toList_ofList]
  split
  · next ended =>
      obtain ⟨body, same⟩ := List.getLast?_eq_some_iff.mp ended
      refine ⟨body, same, ?_⟩
      rw [same, Text.any_markdownLines_append_feed Text.closesFence_nil]
  · exact ⟨text.toList, rfl, rfl⟩

/-- Of two lists, the second is what is left from the first element on that fails a test,
exactly when it starts with such an element and the first list has none. -/
theorem dropWhile_append_eq_iff {α : Type} {test : α → Bool} {later : List α}
    (starts : later.dropWhile test = later) (earlier : List α) :
    (earlier ++ later).dropWhile test = later ↔ ∀ item ∈ earlier, test item = true := by
  have kept : (earlier ++ later).dropWhile test = earlier.dropWhile test ++ later := by
    rw [List.dropWhile_append]
    split
    · next passed => rw [List.isEmpty_iff.mp passed, starts, List.nil_append]
    · rfl
  rw [kept, List.append_left_eq_self, List.dropWhile_eq_nil_iff]

/-- A fenced block is closed by its last line only, exactly when no line of the text inside
closes it. -/
theorem fromClosingLine_fencedYaml_iff {language comment : String}
    (oneLine : language.toList.any Text.endsLine = false) (commented : isComment comment = true)
    (text : String) :
    fromClosingLine (fencedYaml language comment text) = ["```".toList, []] ↔
      (markdownLines text.toList).any closesFence = false := by
  obtain ⟨body, ended, same⟩ := exists_lineEnded text
  rw [isComment, Bool.and_eq_true, decide_eq_true_eq, Bool.not_eq_true'] at commented
  obtain ⟨start, commentEnds⟩ := commented
  have commentStays : closesFence comment.toList = false := by
    refine Text.closesFence_of_offMargin fun c member => ?_
    obtain rfl := Option.some.inj (start.symm.trans member)
    decide
  have lines : markdownLines (fencedYaml language comment text).toList =
      ("```".toList ++ language.toList) :: comment.toList ::
        (markdownLines body ++ ["```".toList, []]) := by
    have opening : ∀ c ∈ "```".toList ++ language.toList, Text.endsLine c = false := by
      have unended : ("```".toList ++ language.toList).any Text.endsLine = false := by
        rw [List.any_append, oneLine]
        rfl
      simpa using unended
    have commenting : ∀ c ∈ comment.toList, Text.endsLine c = false := by simpa using commentEnds
    have block : (fencedYaml language comment text).toList =
        ("```".toList ++ language.toList) ++
          '\n' :: (comment.toList ++ '\n' :: (body ++ '\n' :: "```\n".toList)) := by
      simp [fencedYaml, ended]
    rw [block, markdownLines, List.splitOnP_append_cons_of_forall_mem opening '\n' rfl,
      List.splitOnP_append_cons_of_forall_mem commenting '\n' rfl,
      List.splitOnP_append_cons body _ rfl]
    rfl
  rw [fromClosingLine, lines, List.tail_cons, List.dropWhile_cons, if_pos (by simp [commentStays]),
    ← same, dropWhile_append_eq_iff (by decide)]
  simp

end Page

namespace Snippets

/-- The nested tree of a mapping with entries has no literal block two columns from the
margin. -/
theorem marginTexts_under (role : Role) {tree : Tree} (block : tree.isBlockMapping = true) :
    (tree.under role.name).marginTexts = [] := by
  have simple := (keyText_roleName role).1
  cases tree with
  | mapping entries =>
      simp [Tree.under, Tree.marginTexts, Tree.entryTexts, Tree.columnTexts, simple]
  | null | bool value | number value | text value | sequence items => cases block

/-- No line of a nested snippet that shows a mapping with entries closes the block around
it. -/
theorem not_closesFence_nested (role : Role) (config : Field) (view : View) {tree : Tree}
    (block : (view.apply config tree).isBlockMapping = true) :
    ∀ line ∈ markdownLines (shownTree role config true view tree).yaml.toList,
      closesFence line = false := by
  have closes := Tree.any_closesFence_yaml (shownTree role config true view tree)
  have noTexts : (shownTree role config true view tree).marginTexts = [] :=
    marginTexts_under role block
  rw [noTexts] at closes
  simpa using closes

/-- A line of a snippet closes the fenced block around it exactly when a literal block two
columns from the margin has a text that holds a fence. The blocks of a page are closed by
their last lines exactly when there is no such text. -/
theorem closesFence_iff_marginTexts {datum : Datum} {tree : Tree}
    (encoded : datum.toTree = .ok tree) (role : Role) (config : Field) (nested : Bool)
    (options : ViewOptions) :
    ∃ snippets, ofExample role config nested datum options = .ok snippets ∧
      ∀ filter,
        let texts := (shownTree role config nested ⟨filter, options⟩ tree).marginTexts
        ((∃ line ∈ markdownLines (snippets.shown filter).toList, closesFence line = true) ↔
            ∃ text ∈ texts, Yaml.holdsFence text = true) ∧
          ∀ comment, Page.isComment comment = true →
            (Page.fromClosingLine (Page.fencedYaml "yml" comment (snippets.shown filter)) =
                ["```".toList, []] ↔
              ∀ text ∈ texts, Yaml.holdsFence text = false) := by
  obtain ⟨snippets, shows, text⟩ := exists_shown_ofExample encoded role config nested options
  refine ⟨snippets, shows, fun filter => ?_⟩
  have closes := Tree.any_closesFence_yaml (shownTree role config nested ⟨filter, options⟩ tree)
  rw [text]
  refine ⟨?_, fun comment commented => ?_⟩
  · rw [← List.any_eq_true, closes, List.any_eq_true]
  · rw [Page.fromClosingLine_fencedYaml_iff (by decide) commented, closes, List.any_eq_false]
    simp

/-- A literal block of plain lines has no line that closes the block around its snippet,
which goes on to its last line. -/
theorem closesFence_twoLines :
    ∃ snippets, ofExample .input (.root []) false (note "x\ny") {} = .ok snippets ∧
      (∀ line ∈ markdownLines snippets.common.toList, closesFence line = false) ∧
      Page.fromClosingLine
          (Page.fencedYaml "yml" "# Config fields, showing default values" snippets.common) =
        ["```".toList, []] := by
  have encoded : (note "x\ny").toTree = .ok (.mapping [("note", .text "x\ny")]) := rfl
  obtain ⟨snippets, shows, closes⟩ := closesFence_iff_marginTexts encoded .input (.root []) false {}
  obtain ⟨lines, block⟩ := closes .common
  refine ⟨snippets, shows, fun line member => Bool.eq_false_iff.mpr fun closing => ?_, ?_⟩
  · have held := lines.mp ⟨line, member, closing⟩
    revert held
    decide
  · exact (block "# Config fields, showing default values" (by decide)).mpr (by decide)

/-- A fence in the first line of a text closes the block around the bare snippet of an
entry with that text. -/
theorem closesFence_fencedNote :
    ∃ snippets, ofExample .input (.root []) false (note "```\nx") {} = .ok snippets ∧
      snippets.common = "note: |-\n  ```\n  x\n" ∧
      ∃ line ∈ markdownLines snippets.common.toList, closesFence line = true := by
  have encoded : (note "```\nx").toTree = .ok (.mapping [("note", .text "```\nx")]) := rfl
  refine ⟨_, ofExample_of_toTree encoded _ _ _ _, by decide, ?_⟩
  exact ⟨"  ```".toList, by decide, by decide⟩

end Snippets

end FieldGuide
