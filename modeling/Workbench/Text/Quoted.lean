import Workbench.Text.Numeral
import Workbench.Text.Unprintable

/-!
# Text/Quoted — a text as an error message shows it

The text stands between double quotes; what would break the line, end the quotes or not be seen is
written with a backslash.
-/

namespace Workbench.Text

/-- A character between quotes. -/
def quotedChar (c : Char) : Text :=
  match c with
  | '"' => "\\\""
  | '\\' => "\\\\"
  | '\n' => "\\n"
  | '\r' => "\\r"
  | '\t' => "\\t"
  | '\x00' => "\\0"
  | c => if isUnprintable c then "\\u\x7b" ++ hex c.toNat ++ "\x7d" else [c]

/-- A text between quotes. -/
def quoted (t : Text) : Text := '"' :: t.flatMap quotedChar ++ ['"']

end Workbench.Text
