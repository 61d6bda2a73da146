import FieldGuide.Page.Text
import FieldGuide.Reference

/-!
# The field reference on a page

This module writes the section that lists every entry of a field reference.
-/

namespace FieldGuide.Page

/-- The note on a field that holds sensitive information. -/
def secretNote : String :=
  ":::warning Secret\n" ++
  "This field contains sensitive information that usually shouldn't be added to a config " ++
  "directly.\n" ++
  ":::\n\n"

/-- The table row of an annotated option. -/
def optionRow (annotated : String × String) : String :=
  "| `" ++ cellText annotated.1 ++ "` | " ++ cellText annotated.2 ++ " |\n"

/-- The options of a field: a table when they are annotated, a sentence
otherwise. -/
def optionsText (field : Field) : String :=
  if !field.annotatedOptions.isEmpty then
    "| Option | Summary |\n|---|---|\n" ++
      String.join (field.annotatedOptions.map optionRow) ++ "\n"
  else if !field.options.isEmpty then
    "Options: " ++ ", ".intercalate (field.options.map fun option => "`" ++ option ++ "`") ++
      ".\n\n"
  else ""

/-- An entry of the field reference. -/
def referenceItem (entry : ReferenceEntry) : String :=
  let field := entry.field
  let description := trimmed field.description
  "### `" ++ entry.fullName ++ "`\n\n" ++
    (if description.isEmpty then "" else description ++ "\n\n") ++
    (if field.isSecret then secretNote else "") ++
    "*Type*: `" ++ entry.shownType ++ "`\n\n" ++
    (match entry.defaultText with
      | some text => "*Default*: `" ++ text ++ "`\n\n"
      | none => "") ++
    (if field.version.isEmpty then ""
      else "Requires version " ++ field.version ++ " or newer\n\n") ++
    optionsText field ++
    (if entry.exampleTexts.isEmpty then ""
      else fencedYaml "yml" "# Examples\n" ("\n".intercalate entry.exampleTexts) ++ "\n")

/-- The field reference section. -/
def referenceSection (entries : List ReferenceEntry) : String :=
  "## Fields\n\n" ++ String.join (entries.map referenceItem)

end FieldGuide.Page
