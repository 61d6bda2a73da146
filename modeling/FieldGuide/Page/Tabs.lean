import FieldGuide.Component.Basic
import FieldGuide.Page.Text
import FieldGuide.Snippets

/-!
# Tabs of a page

This module writes the parts of a page that are tabbed: the snippets of the whole
configuration, when its two views differ, and the showcases.
-/

namespace FieldGuide.Page

/-- The snippets of the configuration: one block when both views are the same, and
one tab for each view otherwise. -/
def snippetTabs (snippets : Snippets) : String :=
  if snippets.coincide then
    fencedYaml "yml" "# Config fields, showing default values" snippets.common ++ "\n"
  else
    "<Tabs defaultValue=\"common\" values=\x7b[\n" ++
    "  \x7b label: 'Common', value: 'common', \x7d,\n" ++
    "  \x7b label: 'Advanced', value: 'advanced', \x7d,\n" ++
    "]\x7d>\n\n" ++
    "<TabItem value=\"common\">\n\n" ++
    fencedYaml "yml" "# Common config fields, showing default values" snippets.common ++
    "\n</TabItem>\n<TabItem value=\"advanced\">\n\n" ++
    fencedYaml "yml" "# All config fields, showing default values" snippets.advanced ++
    "\n</TabItem>\n</Tabs>\n\n"

/-- The line of the tab list for a showcase. -/
def showcaseTab (shown : Showcase) : String :=
  let label := literalText shown.title
  "  \x7b label: '" ++ label ++ "', value: '" ++ label ++ "', \x7d,\n"

/-- The tab of a showcase: its summary and its configuration. -/
def showcaseItem (shown : Showcase) : String :=
  let summary := trimmed shown.summary
  let config := fromFirstLine shown.config
  "<TabItem value=\"" ++ attributeText shown.title ++ "\">\n\n" ++
    (if summary.isEmpty then "" else summary ++ "\n\n") ++
    (if (trimmed config).isEmpty then ""
      else "```yaml\n" ++ lineEnded config ++ "```\n\n") ++
    "</TabItem>\n"

/-- The showcases, one tab each. The first is open by default. -/
def showcaseTabs : List Showcase → String
  | [] => ""
  | first :: rest =>
      "## Examples\n\n<Tabs defaultValue=\"" ++ attributeText first.title ++
        "\" values=\x7b[\n" ++ String.join ((first :: rest).map showcaseTab) ++ "]\x7d>\n\n" ++
        String.join ((first :: rest).map showcaseItem) ++ "</Tabs>\n\n"

end FieldGuide.Page
