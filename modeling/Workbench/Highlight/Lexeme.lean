import Workbench.Highlight.Span
import Workbench.Language.Vocabulary
import Workbench.Text.Blank

/-!
# Highlight/Lexeme — what can stand at a place of a source

A recogniser looks at one place: it is given the character before the place and the text from
there on, and says what begins there.  Words are runs of ASCII letters, digits and underscores; a
letter beyond ASCII bounds a word like any other sign.
-/

namespace Workbench.Highlight

/-- What begins at a place: the piece to highlight, and what was read behind it to be sure. -/
structure Lexeme where
  kind : Kind
  body : Text
  tail : Text := []

/-- Says what begins at a place, from the character before it and the text behind it. -/
abbrev Recogniser := Option Char → Text → Option Lexeme

/-- The characters of words. -/
def isWord (c : Char) : Bool := c.isAlphanum || c = '_'

/-- Whether a place, given by the character before it, is inside a word or right behind one. -/
def behindWord (before : Option Char) : Bool := before.any isWord

/-! ## Comments -/

/-- How a comment is delimited. -/
inductive CommentForm
  /-- From the mark up to the end of the line. -/
  | line (opening : Text)
  /-- From one mark through the other. -/
  | block (opening closing : Text)

/-- The comments of a language. -/
def commentForms : Language → List CommentForm
  | .python => [.line "#", .block "\"\"\"" "\"\"\""]
  | .java => [.line "//", .block "/*" "*/"]
  | .html => [.block "<!--" "-->"]

/-- The comment of a form that begins the text. -/
def CommentForm.read (form : CommentForm) (t : Text) : Option Text :=
  match form with
  | line opening =>
    (Text.dropMark? opening t).map fun rest => opening ++ rest.takeWhile (· ≠ '\n')
  | block opening closing => do
    let rest ← Text.dropMark? opening t
    let (inside, _) ← Text.cutFirst closing rest
    return opening ++ inside ++ closing

/-! ## String literals -/

/-- The rest of a string literal, through the quote that closes it.  A backslash and the character
behind it belong together, but a backslash before a line feed spoils the literal. -/
def literalRest (quote : Char) : Text → Option Text
  | [] => none
  | '\\' :: c :: t => if c = '\n' then none else (literalRest quote t).map ('\\' :: c :: ·)
  | c :: t =>
    if c = quote then some [c]
    else if c = '\\' then none
    else (literalRest quote t).map (c :: ·)

/-- The string literal that begins the text.  The `f` of a formatted one must begin a word. -/
def literal (before : Option Char) : Text → Option Text
  | 'f' :: '"' :: t => if behindWord before then none else (literalRest '"' t).map ('f' :: '"' :: ·)
  | '"' :: t => (literalRest '"' t).map ('"' :: ·)
  | '\'' :: t => (literalRest '\'' t).map ('\'' :: ·)
  | _ => none

/-- Comments and string literals; where both could begin, the comment does. -/
def commentOrString (l : Language) : Recogniser := fun before t =>
  match (commentForms l).findSome? (·.read t) with
  | some comment => some { kind := .comment, body := comment }
  | none => (literal before t).map fun s => { kind := .string, body := s }

/-! ## Numbers -/

/-- The number that begins the text: digits, with a fraction if it ends where a word could end.
Digits and a point count if a word begins behind the point, and digits that a letter follows are
no number. -/
def numeral (t : Text) : Option Text :=
  let whole := t.takeWhile Char.isDigit
  if whole = [] then none
  else
    match t.dropWhile Char.isDigit with
    | [] => some whole
    | c :: rest =>
      if c = '.' then
        let places := rest.takeWhile Char.isDigit
        if places ≠ [] ∧ ¬ behindWord (rest.dropWhile Char.isDigit).head? then
          some (whole ++ '.' :: places)
        else if behindWord rest.head? then some (whole ++ ['.'])
        else some whole
      else if isWord c then none
      else some whole

/-- Numbers that begin a word. -/
def number : Recogniser := fun before t =>
  if behindWord before then none else (numeral t).map fun n => { kind := .number, body := n }

/-! ## Words -/

/-- The word that begins at a place. -/
def wordAt (before : Option Char) (t : Text) : Text :=
  if behindWord before then [] else t.takeWhile isWord

/-- The words of a table. -/
def wordIn (table : List Text) (kind : Kind) : Recogniser := fun before t =>
  let word := wordAt before t
  if word ∈ table ∧ word ≠ [] then some { kind, body := word } else none

/-- The name of a function that is called: a word that begins with no digit, before an opening
parenthesis and perhaps blanks. -/
def call : Recogniser := fun before t =>
  let word := wordAt before t
  let behind := t.drop word.length
  match word, behind.dropWhile Text.isBlank with
  | first :: _, '(' :: _ =>
    if first.isDigit then none
    else some { kind := .function, body := word, tail := behind.takeWhile Text.isBlank ++ ['('] }
  | _, _ => none

/-- The recognisers of a language, in the order in which they may claim the source. -/
def tiers (l : Language) : List Recogniser :=
  [commentOrString l, number, wordIn l.builtins .builtin, wordIn l.keywords .keyword, call]

end Workbench.Highlight
