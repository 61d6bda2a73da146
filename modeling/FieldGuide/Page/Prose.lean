import FieldGuide.Component.Basic
import FieldGuide.Json.Writer
import FieldGuide.Page.Text

/-!
# Prose of a page

This module writes the parts of a page that come from the component's own
description: its metadata, the note on its status, and its texts. A part is a
complete block with the empty line after it, or the empty string when there is
nothing to show.
-/

namespace FieldGuide.Page

/-- The metadata at the top: title, role, status and categories. -/
def metadataBlock (component : Component) : String :=
  let categories :=
    if component.categories.isEmpty then ""
    else "categories: " ++ (Json.array (component.categories.map .string)).compact ++ "\n"
  "---\ntitle: " ++ component.name ++ "\ntype: " ++ component.role.name ++
    "\nstatus: " ++ component.status.name ++ "\n" ++ categories ++ "---\n\n"

/-- The comment and the imports after the metadata. -/
def preamble : String :=
  "<!--\n" ++
  "     THIS FILE IS AUTOGENERATED!\n" ++
  "\n" ++
  "     To make changes please edit the component specification it was generated from.\n" ++
  "-->\n" ++
  "\n" ++
  "import Tabs from '@theme/Tabs';\n" ++
  "import TabItem from '@theme/TabItem';\n" ++
  "\n"

/-- An admonition with a title. -/
def admonition (name title body : String) : String :=
  ":::" ++ name ++ " " ++ title ++ "\n" ++ body ++ "\n:::\n\n"

/-- The warning about a component that is not stable. -/
def stabilityNote : Status → String
  | .stable => ""
  | .beta =>
      admonition "caution" "BETA"
        ("This component is mostly stable but breaking changes could still be made outside " ++
          "of major version releases if a fundamental problem with the component is found.")
  | .experimental =>
      admonition "caution" "EXPERIMENTAL"
        ("This component is experimental and therefore subject to change or removal outside " ++
          "of major version releases.")
  | .deprecated =>
      admonition "warning" "DEPRECATED"
        ("This component is deprecated and will be removed in the next major version release. " ++
          "Please consider moving onto [alternative components](#alternatives).")

/-- The summary and the version the component came with. -/
def opening (summary version : String) : String :=
  (if summary.isEmpty then "" else trimmedEnd summary ++ "\n\n") ++
    (if version.isEmpty then "" else "Introduced in version " ++ version ++ ".\n\n")

/-- A long text without its leading line feed and trailing white space, followed by
an ending; nothing when the text is blank. -/
def passage (text ending : String) : String :=
  let body := trimmedEnd (fromFirstLine text)
  if body.isEmpty then "" else body ++ ending

/-- The long description. -/
def longDescription (description : String) : String := passage description "\n\n"

/-- The footnotes that close the page. -/
def closing (footnotes : String) : String := passage footnotes "\n"

end FieldGuide.Page
