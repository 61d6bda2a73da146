import FieldGuide.Text.Hex
import FieldGuide.Text.Obscured

/-!
# Quoted text in messages

This module writes a text between double quotes, as messages name the values
they complain about.
-/

namespace FieldGuide.Text

/-- One character of a quoted text. Characters without a visible form are named
by their code point. -/
def quotedChar (c : Char) : List Char :=
  match c with
  | '\x00' => ['\\', '0']
  | '\t' => ['\\', 't']
  | '\r' => ['\\', 'r']
  | '\n' => ['\\', 'n']
  | '"' => ['\\', '"']
  | '\\' => ['\\', '\\']
  | _ =>
      if isObscured c then
        ['\\', 'u', '\x7b'] ++ hexDigits c.toNat ++ ['\x7d']
      else [c]

/-- A text between double quotes, with escapes. -/
def quoted (text : List Char) : List Char :=
  '"' :: text.flatMap quotedChar ++ ['"']

end FieldGuide.Text
