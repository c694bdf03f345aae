import Workbench.Text.Basic

/-!
# Console/Words — a line of input as words

Words are split at blanks and quoted as in a shell: between single quotes everything stands for
itself, between double quotes a backslash escapes the characters that are special there, and
outside of quotes it escapes any character.  A `#` that begins a word begins a comment.
-/

namespace Workbench.Console

/-- Where a place in a line is.  A word that has begun is given by its characters so far, last one
first. -/
inductive Place
  /-- Outside of quotes, in a word if one has begun. -/
  | bare (word : Option Text)
  | single (word : Text)
  | double (word : Text)
  | comment

/-- The characters that end a word. -/
def endsWord (c : Char) : Bool := c = ' ' || c = '\t' || c = '\n'

/-- The characters that a backslash escapes between double quotes. -/
def isSpecial (c : Char) : Bool := c = '$' || c = '`' || c = '"' || c = '\\'

/-- The words of the rest of a line; none if a quote is not closed or a backslash is the last
character. -/
def wordsFrom : Place → Text → Option (List Text)
  | .bare word, [] => some (word.toList.map List.reverse)
  | .comment, [] => some []
  | .single _, [] | .double _, [] => none
  | .bare word, c :: t =>
    if endsWord c then (wordsFrom (.bare none) t).map (word.toList.map List.reverse ++ ·)
    else if c = '#' ∧ word = none then wordsFrom .comment t
    else if c = '\'' then wordsFrom (.single (word.getD [])) t
    else if c = '"' then wordsFrom (.double (word.getD [])) t
    else if c = '\\' then
      match t with
      | [] => none
      | d :: t =>
        let word := word.getD []
        wordsFrom (.bare (some (if d = '\n' then word else d :: word))) t
    else wordsFrom (.bare (some (c :: word.getD []))) t
  | .comment, c :: t => wordsFrom (if c = '\n' then .bare none else .comment) t
  | .single word, c :: t =>
    if c = '\'' then wordsFrom (.bare (some word)) t else wordsFrom (.single (c :: word)) t
  | .double word, c :: t =>
    if c = '"' then wordsFrom (.bare (some word)) t
    else if c = '\\' then
      match t with
      | [] => none
      | d :: t =>
        if d = '\n' then wordsFrom (.double word) t
        else if isSpecial d then wordsFrom (.double (d :: word)) t
        else wordsFrom (.double (d :: '\\' :: word)) t
    else wordsFrom (.double (c :: word)) t

/-- The words of a line. -/
def words? (line : Text) : Option (List Text) := wordsFrom (.bare none) line

end Workbench.Console
