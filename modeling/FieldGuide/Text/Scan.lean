/-!
# Scanners

This module holds the scanners that readers are built from. A scanner takes what
it recognises from the start of a text and leaves the rest, or fails.
-/

namespace FieldGuide.Text

/-- A scanner of a value. -/
abbrev Scan (α : Type) := StateT (List Char) Option α

namespace Scan

/-- The next character, which stays in the text. -/
def peek? : Scan (Option Char) := return (← get).head?

/-- Takes the next character. -/
def next : Scan Char := fun
  | c :: rest => some (c, rest)
  | [] => none

/-- Takes the given character. -/
def eat (c : Char) : Scan Unit := fun
  | d :: rest => if c = d then some ((), rest) else none
  | [] => none

/-- Takes the given characters. -/
def eatAll (word : List Char) : Scan Unit := fun text =>
  if word.isPrefixOf text then some ((), text.drop word.length) else none

/-- Takes the given characters if they come next, and tells whether they did. -/
def tryAll (word : List Char) : Scan Bool := fun text =>
  if word.isPrefixOf text then some (true, text.drop word.length) else some (false, text)

/-- Takes the longest run of characters that pass a test. -/
def takeWhile (test : Char → Bool) : Scan (List Char) := fun text =>
  some (text.takeWhile test, text.dropWhile test)

/-- Skips the longest run of characters that pass a test. -/
def skipWhile (test : Char → Bool) : Scan Unit := fun text =>
  some ((), text.dropWhile test)

/-- Takes a number of characters. -/
def takeN : Nat → Scan (List Char)
  | 0 => return []
  | count + 1 => do
      let c ← next
      return c :: (← takeN count)

/-- Goes one level further into brackets, of which fewer than `limit` may be open. -/
def deeper (limit level : Nat) : Scan Nat := do
  guard (level + 1 < limit)
  return level + 1

/-- The value a scanner takes from the whole of a text. -/
def whole? {α : Type} (scan : Scan α) (text : List Char) : Option α :=
  match scan text with
  | some (value, []) => some value
  | _ => none

end Scan

end FieldGuide.Text
