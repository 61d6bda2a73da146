import FieldGuide.Text.Blank

/-!
# Text on pages

This module holds what texts go through before they stand on a page: trimming, the
escapes of table cells, attributes and string literals, and fences.
-/

namespace FieldGuide.Page

/-- Applies a function on characters to a string. -/
def onChars (change : List Char → List Char) (text : String) : String :=
  .ofList (change text.toList)

/-- Removes white space from both ends. -/
def trimmed (text : String) : String := onChars Text.trim text

/-- Removes white space from the end. -/
def trimmedEnd (text : String) : String := onChars Text.trimEnd text

/-- Removes one line feed from the start. -/
def fromFirstLine (text : String) : String :=
  onChars (fun | '\n' :: rest => rest | chars => chars) text

/-- Adds a line feed unless the text ends with one. -/
def lineEnded (text : String) : String :=
  onChars (fun chars => if chars.getLast? = some '\n' then chars else chars ++ ['\n']) text

/-- One character of a table cell. A pipe gets a backslash, and a line feed becomes
a space. -/
def cellChar (c : Char) : List Char :=
  if c = '|' then ['\\', '|'] else if c = '\n' then [' '] else [c]

/-- The text of a table cell. -/
def cellText (text : String) : String := onChars (·.flatMap cellChar) text

/-- One character of an attribute between double quotes. -/
def attributeChar (c : Char) : List Char :=
  if c = '"' then "&quot;".toList else [c]

/-- The text of an attribute between double quotes. -/
def attributeText (text : String) : String := onChars (·.flatMap attributeChar) text

/-- One character of a string literal between single quotes. -/
def literalChar (c : Char) : List Char :=
  if c = '\\' ∨ c = '\x27' then ['\\', c] else [c]

/-- The text of a string literal between single quotes. -/
def literalText (text : String) : String := onChars (·.flatMap literalChar) text

/-- A fenced block of YAML in a language's name, opened by a comment line. -/
def fencedYaml (language comment yaml : String) : String :=
  "```" ++ language ++ "\n" ++ comment ++ "\n" ++ lineEnded yaml ++ "```\n"

end FieldGuide.Page
