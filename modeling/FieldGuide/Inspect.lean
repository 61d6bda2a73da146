import FieldGuide.Text.Lines

/-!
# Inspecting rendered text

This module reads back what rendered text shows: the keys of a top-level mapping,
the content of a single wrapping key, and the bodies of fenced blocks. It looks at
lines only and knows nothing of quoting.
-/

namespace FieldGuide.Inspect

/-- Each line with a line feed after it. -/
def unlines (lines : List (List Char)) : List Char := lines.flatMap (· ++ ['\n'])

/-- Whether a line starts with one of the given characters. -/
def startsWithAny (chars : List Char) : List Char → Bool
  | [] => false
  | c :: _ => chars.contains c

/-- What stands before the first colon of a line. -/
def beforeColon? (line : List Char) : Option (List Char) :=
  if line.contains ':' then some (line.takeWhile (· != ':')) else none

/-- The keys of the top-level mapping of a YAML text, in order. Indented lines,
items and comments are passed over. -/
def outermostKeys (yaml : String) : List String :=
  let candidates := (Text.lines yaml.toList).filter fun line =>
    !startsWithAny [' ', '-', '#'] line
  candidates.filterMap fun line => (beforeColon? line).map .ofList

/-- Removes two spaces from the start of a line. -/
def outdent? : List Char → Option (List Char)
  | ' ' :: ' ' :: rest => some rest
  | _ => none

/-- Removes a single-key wrapper: the text starts with the key and a colon on a
line of their own, and every other line is indented by two spaces. -/
def peel? (yaml key : String) : Option String :=
  match Text.lines yaml.toList with
  | [] => none
  | header :: body =>
      if header = key.toList ++ [':'] then
        (body.mapM outdent?).map fun lines => .ofList (unlines lines)
      else none

/-- The fence of a block. -/
def fence : List Char := ['\x60', '\x60', '\x60']

/-- The bodies of the blocks that a line equal to `opening` opens. `current` holds
the lines of the open block; a block that is never closed has no body. -/
def bodies (opening : List Char) :
    (current : Option (List (List Char))) → List (List Char) → List (List (List Char))
  | _, [] => []
  | some block, line :: rest =>
      if fence.isPrefixOf line then block :: bodies opening none rest
      else bodies opening (some (block ++ [line])) rest
  | none, line :: rest =>
      if line = opening then bodies opening (some []) rest else bodies opening none rest

/-- The bodies of the fenced blocks tagged with a language. Every line of a body
ends with a line feed. -/
def fencedBodies (markdown language : String) : List String :=
  (bodies (fence ++ language.toList) none (Text.lines markdown.toList)).map fun block =>
    .ofList (unlines block)

end FieldGuide.Inspect
