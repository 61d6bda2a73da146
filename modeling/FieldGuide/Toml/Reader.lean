import FieldGuide.Toml.Scalar
import FieldGuide.Toml.Table

/-!
# Reading TOML documents

This module reads a TOML document as a table of settings. Nested values are read
with fuel; the entry point provides more of it than a text of the given length can
use. How deep they nest is limited by the level alone.
-/

namespace FieldGuide.Toml

open FieldGuide.Text

/-- Drops blanks, line ends and comments. A comment must not hold controls, and
reaches to the end of its line. -/
def dropTrivia? : (inComment : Bool) → List Char → Option (List Char)
  | _, [] => some []
  | _, '\n' :: rest => dropTrivia? false rest
  | _, '\r' :: '\n' :: rest => dropTrivia? false rest
  | true, c :: rest => if isTextChar c then dropTrivia? true rest else none
  | false, c :: rest =>
      if c = ' ' || c = '\t' then dropTrivia? false rest
      else if c = '#' then dropTrivia? true rest
      else some (c :: rest)

/-- Skips blanks, line ends and comments. -/
def skipTrivia : Scan Unit := do set (← dropTrivia? false (← get))

mutual

/-- A value inside as many arrays and inline tables as `level` says. -/
def value : Nat → (level : Nat) → Scan Setting
  | 0, _ => failure
  | fuel + 1, level => do
      match ← Scan.peek? with
      | some '"' => return .text (← stringIn '"')
      | some '\x27' => return .text (← stringIn '\x27')
      | some '[' => do Scan.eat '['; return .list (← items fuel (← Scan.deeper levelLimit level))
      | some '\x7b' =>
          Scan.eat '\x7b'
          let level ← Scan.deeper levelLimit level
          skipBlanks
          if ← Scan.tryAll ['\x7d'] then return .table []
          else return .table (Node.entrySettings (← inlineEntries fuel level []))
      | _ => word

/-- The items of an array up to its closing bracket. A comma may stand after the
last one. -/
def items : Nat → (level : Nat) → Scan (List Setting)
  | 0, _ => failure
  | fuel + 1, level => do
      skipTrivia
      if ← Scan.tryAll [']'] then return []
      else
        let item ← value fuel level
        skipTrivia
        if ← Scan.tryAll [','] then return item :: (← items fuel level)
        else
          Scan.eat ']'
          return [item]

/-- The entries of an inline table up to its closing brace. -/
def inlineEntries : Nat → (level : Nat) → Entries → Scan Entries
  | 0, _, _ => failure
  | fuel + 1, level, entries => do
      let (path, key) ← dottedKey
      Scan.eat '='
      skipBlanks
      let setting ← value fuel level
      let entries ← entries.assign path key setting
      skipBlanks
      if ← Scan.tryAll [','] then inlineEntries fuel level entries
      else
        Scan.eat '\x7d'
        return entries

end

/-- What follows on the line of a header or an entry: blanks and a comment. -/
def restOfLine : Scan Unit := do
  skipBlanks
  if ← Scan.tryAll ['#'] then Scan.skipWhile isTextChar
  guard (← get).isEmpty <|> lineEnd

/-- The header of a table or of an element of an array of tables. Returns the path
it opened and the document with the new table. -/
def header (entries : Entries) : Scan (List String × Entries) := do
  Scan.eat '['
  let isElement ← Scan.tryAll ['[']
  let (path, key) ← dottedKey
  Scan.eat ']'
  if isElement then
    Scan.eat ']'
    return (path ++ [key], ← entries.openElement path key)
  else return (path ++ [key], ← entries.openTable path key)

/-- The lines of a document after `current`, the path of the last header. -/
def lines : Nat → (current : List String) → Entries → Scan Entries
  | 0, _, _ => failure
  | fuel + 1, current, entries => do
      skipTrivia
      match ← Scan.peek? with
      | none => return entries
      | some '[' =>
          let (current, entries) ← header entries
          restOfLine
          lines fuel current entries
      | some _ =>
          let (path, key) ← dottedKey
          Scan.eat '='
          skipBlanks
          let setting ← value (2 * (← get).length + 2) 0
          let entries ← entries.assignIn current path key setting
          restOfLine
          lines fuel current entries

/-- Reads a document. A byte order mark may stand before it. -/
def read? (text : String) : Option (List (String × Setting)) :=
  let body :=
    match text.toList with
    | '\ufeff' :: rest => rest
    | chars => chars
  ((lines (body.length + 1) [] []).whole? body).map Node.entrySettings

end FieldGuide.Toml
