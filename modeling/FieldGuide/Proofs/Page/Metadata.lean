import FieldGuide.Field.Edit
import FieldGuide.Page.Prose
import FieldGuide.Proofs.Inspect.Bodies
import FieldGuide.Proofs.Yaml.Plain

/-!
# The title in the metadata

The metadata of a page is YAML, and the title in it is the name of the component as it is. This is
the YAML of the name exactly when the name survives without quotes, since no other scalar can be
read in its place before the rest of the metadata. The name has the line of the title for itself
unless it holds a line feed or ends with a carriage return, and then lines of the name stand among
those of the metadata.
-/

namespace FieldGuide.Page

open Yaml (needsQuotes allowsPlain)

/-- The YAML of a text under the key of the title. -/
theorem toList_yaml_title (name : String) :
    ((Tree.text name).under "title").yaml.toList =
      "title: ".toList ++ (Yaml.hang [] (Yaml.scalarRows name.toList)).flatMap Yaml.Row.chars := by
  have simple : Yaml.isSimpleKey "title" = true := by decide
  have key : Yaml.keyText "title" ++ [':', ' '] = "title: ".toList := by decide
  obtain ⟨first, rest, rows, -⟩ := Yaml.opens_scalarRows name.toList
  have filled : Yaml.scalarRows name.toList ≠ [] := rows ▸ List.cons_ne_nil first rest
  have hung : ((Tree.text name).under "title").documentRows =
      Yaml.hang "title: ".toList (Yaml.scalarRows name.toList) := by
    rw [Tree.under, Tree.documentRows_mapping (List.cons_ne_nil _ _), List.flatMap_singleton,
      Yaml.entryRows, if_pos simple, if_neg (by simp [Tree.isBlockMapping]),
      if_neg (by simp [Tree.isBlockSequence]), key, Tree.rows]
  rw [Tree.yaml, String.toList_ofList, hung, Yaml.Row.chars_hang filled]

/-- The line of the categories in the metadata, if there are any. -/
def categoriesLine (component : Component) : String :=
  if component.categories.isEmpty then ""
  else "categories: " ++ (Json.array (component.categories.map .string)).compact ++ "\n"

/-- The metadata after the title. The name has no part in it. -/
def afterTitle (component : Component) : String :=
  "type: " ++ component.role.name ++ "\nstatus: " ++ component.status.name ++ "\n" ++
    categoriesLine component ++ "---\n\n"

/-- What follows the title starts with a letter. -/
theorem exists_afterTitle (component : Component) :
    ∃ rest, (afterTitle component).toList = 't' :: rest := by
  have start : "type: ".toList = 't' :: "ype: ".toList := by simp
  simp only [afterTitle, String.toList_append, start, List.cons_append]
  exact ⟨_, rfl⟩

/-- The metadata holds the name as it is, up to a line feed. -/
theorem toList_metadataBlock (component : Component) :
    (metadataBlock component).toList =
      "---\n".toList ++ ("title: ".toList ++ (component.name.toList ++
        '\n' :: (afterTitle component).toList)) := by
  have written : metadataBlock component = "---\ntitle: " ++ component.name ++ "\ntype: " ++
      component.role.name ++ "\nstatus: " ++ component.status.name ++ "\n" ++
      categoriesLine component ++ "---\n\n" := rfl
  have opening : "---\ntitle: ".toList = "---\n".toList ++ "title: ".toList := by simp
  have ending : "\ntype: ".toList = '\n' :: "type: ".toList := by simp
  simp only [written, afterTitle, String.toList_append, opening, ending, List.append_assoc,
    List.cons_append]

/-- The metadata starts with the YAML of the title exactly when this is the name as it is. -/
theorem yaml_title_prefix_iff (component : Component) :
    ("---\n".toList ++ ((Tree.text component.name).under "title").yaml.toList <+:
        (metadataBlock component).toList) ↔
      needsQuotes component.name.toList = false ∧ allowsPlain component.name.toList = true := by
  obtain ⟨rest, after⟩ := exists_afterTitle component
  rw [toList_metadataBlock, toList_yaml_title, List.prefix_append_right_inj,
    List.prefix_append_right_inj, after, ← Yaml.style_eq_plain_iff]
  constructor
  · intro starts
    by_contra quoted
    exact Yaml.not_scalar_prefix quoted (by decide) (by decide) (by decide) starts
  · intro plain
    rw [Yaml.scalarRows, plain]
    exact ⟨'t' :: rest, by simp [Yaml.hang, Yaml.Row.chars]⟩

/-- The lines of the metadata are those of the title, between those of the rest. -/
theorem lines_metadataBlock (component : Component) :
    Text.lines (metadataBlock component).toList =
      "---".toList :: (Text.lines ("title: ".toList ++ component.name.toList ++ ['\n']) ++
        Text.lines (afterTitle component).toList) := by
  have first : "---\n".toList = "---".toList ++ ['\n'] := by simp
  rw [toList_metadataBlock, first, List.append_assoc, List.singleton_append,
    Text.lines_append_feed (by decide) (by decide), ← List.append_assoc, Text.lines_append_ended]

/-- The metadata starts with the YAML of the name under the key of the title exactly when the name
reads as nothing but text and survives without quotes. Whatever the name is, the lines of the
rest of the metadata are there as they are, and the title is the one line between them exactly
when the name has no line feed and does not end with a carriage return, as is so for each name
that survives without quotes. -/
theorem metadataBlock_titled_iff (component : Component) :
    let name := component.name.toList
    (("---\n".toList ++ ((Tree.text component.name).under "title").yaml.toList <+:
          (metadataBlock component).toList) ↔
        needsQuotes name = false ∧ allowsPlain name = true) ∧
      Text.lines (metadataBlock component).toList =
        "---".toList :: (Text.lines ("title: ".toList ++ name ++ ['\n']) ++
          Text.lines (afterTitle component).toList) ∧
      (Text.lines ("title: ".toList ++ name ++ ['\n']) = ["title: ".toList ++ name] ↔
        '\n' ∉ name ∧ name.getLast? ≠ some '\r') ∧
      (allowsPlain name = true → '\n' ∉ name ∧ name.getLast? ≠ some '\r') := by
  intro name
  refine ⟨yaml_title_prefix_iff component, lines_metadataBlock component, ?_, fun allowed => ?_⟩
  · have noFeed : '\n' ∉ "title: ".toList ++ name ↔ '\n' ∉ name := by simp
    have last : ("title: ".toList ++ name).getLast? ≠ some '\r' ↔ name.getLast? ≠ some '\r' := by
      cases name with
      | nil => exact iff_of_true (by decide) (by decide)
      | cons c rest => rw [List.getLast?_append_of_ne_nil _ (List.cons_ne_nil c rest)]
    rw [Text.lines_append_feed_eq_iff, noFeed, last]
  · have row := Yaml.Row.isWhole_of_unbroken (Yaml.unbroken_of_allowsPlain allowed)
    exact ⟨row.noFeed, fun last => row.noReturn (List.mem_of_getLast? last)⟩

/-- A component of a name with one category. -/
def namedInput (name : String) : Component where
  name
  role := .input
  categories := ["Services"]
  config := .root []

/-- A name of letters is the title as it is, and has a line for itself. -/
theorem metadataBlock_titled_kafka :
    needsQuotes "kafka".toList = false ∧ allowsPlain "kafka".toList = true ∧
      ("---\n".toList ++ "title: kafka\n".toList <+:
        (metadataBlock (namedInput "kafka")).toList) ∧
      Text.lines (metadataBlock (namedInput "kafka")).toList =
        ["---".toList, "title: kafka".toList, "type: input".toList, "status: stable".toList,
          "categories: [\"Services\"]".toList, "---".toList, []] := by
  have text : needsQuotes "kafka".toList = false := by decide
  have allowed : allowsPlain "kafka".toList = true := by decide
  have yaml : ((Tree.text "kafka").under "title").yaml.toList = "title: kafka\n".toList := by decide
  have title : "title: ".toList ++ "kafka".toList = "title: kafka".toList := by simp
  have rest : Text.lines (afterTitle (namedInput "kafka")).toList =
      ["type: input".toList, "status: stable".toList, "categories: [\"Services\"]".toList,
        "---".toList, []] := by decide
  obtain ⟨starts, lines, single, kept⟩ := metadataBlock_titled_iff (namedInput "kafka")
  have started := starts.mpr ⟨text, allowed⟩
  have line := single.mpr (kept allowed)
  refine ⟨text, allowed, yaml ▸ started, ?_⟩
  rw [lines, line, rest, List.singleton_append]
  exact congrArg (fun line => "---".toList :: line :: _) title

/-- A name with a line feed adds a line to the metadata, which then has two for the status. -/
theorem metadataBlock_twoLines :
    let written := (metadataBlock (namedInput "kafka\nstatus: beta")).toList
    ((Tree.text "kafka\nstatus: beta").under "title").yaml =
        "title: |-\n  kafka\n  status: beta\n" ∧
      ¬ ("---\n".toList ++ "title: |-\n  kafka\n  status: beta\n".toList <+: written) ∧
      "status: beta".toList ∈ Text.lines written ∧
      "status: stable".toList ∈ Text.lines written := by
  refine ⟨?_, ?_, ?_, ?_⟩
  all_goals decide

end FieldGuide.Page
