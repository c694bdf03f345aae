import Workbench.Text.Blank

/-!
# Trace/Argument — from a print argument to what it shows

Nothing is evaluated: what an argument shows is its text with quotes, operators and placeholders
taken out.  Each of these steps reads its text once from left to right, and what it must remember
on the way is an argument of its scan.
-/

namespace Workbench.Argument

/-! ## Quotes -/

/-- The two quote characters. -/
def isQuote (c : Char) : Bool := c = '"' || c = '\''

/-- The text without the quote at its start, if there is one. -/
def dropOpeningQuote : Text → Text
  | [] => []
  | c :: t => if isQuote c then t else c :: t

/-- The text without the quote at its end, if there is one. -/
def dropClosingQuote (t : Text) : Text := (dropOpeningQuote t.reverse).reverse

/-- The text without at most one quote at each end, whether or not the two match. -/
def stripQuotes (t : Text) : Text := dropClosingQuote (dropOpeningQuote t)

/-- The text without any quotes. -/
def dropQuotes (t : Text) : Text := t.filter fun c => !isQuote c

/-- The body of a formatted literal: all but its first two characters and its last one, whatever
these are. -/
def literalBody (t : Text) : Text := (t.drop 2).dropLast

/-! ## Line breaks -/

/-- A backslash and an `n` become a line feed. -/
def breakLines : Text → Text
  | [] => []
  | '\\' :: 'n' :: t => '\n' :: breakLines t
  | c :: t => c :: breakLines t

/-! ## Concatenation

A plus sign and the blanks around it become one space.  The scan holds back blanks until it sees
whether a plus sign follows them. -/

/-- The rest of a concatenation.  `held` has the blanks read but not yet written, last one first;
it is `none` behind a plus sign, where blanks are dropped. -/
def joinFrom : (held : Option Text) → Text → Text
  | held, [] => (held.getD []).reverse
  | held, c :: t =>
    if c = '+' then ' ' :: joinFrom none t
    else if Text.isBlank c then joinFrom (held.map (c :: ·)) t
    else (held.getD []).reverse ++ c :: joinFrom (some []) t

/-- Operands that plus signs join, with one space for each plus sign. -/
def joinOperands (t : Text) : Text := joinFrom (some []) t

/-! ## Placeholders -/

/-- What a placeholder shows: a sum, else a quotient, else the expression itself. -/
def placeholderValue (expression : Text) : Text :=
  let expression := Text.trim expression
  if Text.mentions "sum(" expression then "SUM_VALUE"
  else if Text.mentions "/" expression then "AVG_VALUE"
  else expression

/-- The rest of a formatted text.  `inner` has what stands between an opening brace and here, last
character first, and is `none` outside of braces. -/
def fillFrom : (inner : Option Text) → Text → Text
  | none, [] => []
  | some inner, [] => '{' :: inner.reverse
  | none, c :: t => if c = '{' then fillFrom (some []) t else c :: fillFrom none t
  | some inner, c :: t =>
    if c = '}' then
      (if inner = [] then ['{', '}'] else placeholderValue inner.reverse) ++ fillFrom none t
    else fillFrom (some (c :: inner)) t

/-- Every brace, with the text through the next closing brace, becomes the value of that text.
Braces around nothing, and a brace that is never closed, stay. -/
def fillPlaceholders (t : Text) : Text := fillFrom none t

end Workbench.Argument
