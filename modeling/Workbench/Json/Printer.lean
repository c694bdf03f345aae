import Workbench.Json.Value
import Workbench.Text.Quoted

/-!
# Json/Printer — values as text

Values are written without blanks.  In strings only the quote, the backslash and the control
characters below the space are escaped; everything else stands for itself.
-/

namespace Workbench.Json

/-- A character inside a string. -/
def escapedChar (c : Char) : Text :=
  if c = '"' then "\\\""
  else if c = '\\' then "\\\\"
  else if c = '\n' then "\\n"
  else if c = '\r' then "\\r"
  else if c = '\t' then "\\t"
  else if c = '\x08' then "\\b"
  else if c = '\x0c' then "\\f"
  else if c.toNat < 0x10 then "\\u000" ++ Text.hex c.toNat
  else if c.toNat < 0x20 then "\\u00" ++ Text.hex c.toNat
  else [c]

/-- A string with its quotes. -/
def printString (t : Text) : Text := '"' :: t.flatMap escapedChar ++ ['"']

mutual

/-- The text of a value. -/
def print : Json → Text
  | null => "null"
  | bool true => "true"
  | bool false => "false"
  | number n => n.print
  | string t => printString t
  | array items => '[' :: printItems items ++ [']']
  | object members => '\x7b' :: printMembers members ++ ['\x7d']

/-- Items with commas between them. -/
def printItems : List Json → Text
  | [] => []
  | [item] => item.print
  | item :: items => item.print ++ ',' :: printItems items

/-- Members with commas between them. -/
def printMembers : Members → Text
  | [] => []
  | [(key, value)] => printString key ++ ':' :: value.print
  | (key, value) :: members => printString key ++ ':' :: value.print ++ ',' :: printMembers members

end

end Workbench.Json
