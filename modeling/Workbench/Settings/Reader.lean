import Workbench.Error
import Workbench.Settings.Basic

/-!
# Settings/Reader — settings from TOML

A settings document is TOML that says something about settings and nothing else.  So the reader
knows just the values that a setting can have: integers, strings, and, for a language that is given
as a key, tables and arrays without content.  A document with any other value is none, whatever it
means in TOML.
-/

namespace Workbench.Settings

/-- A value of a setting. -/
inductive Value
  | integer (n : Nat)
  | text (t : Text)
  /-- A table or an array without content. -/
  | empty
  /-- A table whose only key has a value without content. -/
  | member (key : Text)
  deriving DecidableEq, Repr

/-- A header, and the keys with their values below it.  The first section of a document has no
header. -/
structure Section where
  header : List Text
  entries : List (List Text × Value)
  deriving DecidableEq, Repr

/-! ## Characters -/

/-- The blanks inside a line. -/
def isGap (c : Char) : Bool := c = ' ' || c = '\t'

/-- The characters that may stand in comments and strings as they are. -/
def isPlain (c : Char) : Bool := c = '\t' || (0x20 ≤ c.toNat && c.toNat ≠ 0x7F)

/-- The characters of keys without quotes. -/
def isBare (c : Char) : Bool := c.isAlphanum || c = '_' || c = '-'

/-- The text behind the blanks and tabs that it begins with. -/
def skipGap (t : Text) : Text := t.dropWhile isGap

/-- The text behind a line break, if the text begins with one. -/
def dropBreak? : Text → Option Text
  | '\n' :: t => some t
  | '\r' :: '\n' :: t => some t
  | _ => none

/-- The text behind the rest of a line, which may hold nothing but a comment. -/
def endLine (t : Text) : Option Text :=
  match skipGap t with
  | [] => some []
  | '#' :: t =>
    match t.dropWhile isPlain with
    | [] => some []
    | t => dropBreak? t
  | t => dropBreak? t

/-- The text behind blanks, line breaks and comments between brackets.  The brackets must be
closed. -/
def skipLines (inComment : Bool) : Text → Option Text
  | [] => none
  | '\n' :: t => skipLines false t
  | '\r' :: '\n' :: t => skipLines false t
  | c :: t =>
    if inComment then if isPlain c then skipLines true t else none
    else if isGap c then skipLines false t
    else if c = '#' then skipLines true t
    else some (c :: t)

/-! ## Strings -/

/-- What a letter behind a backslash stands for. -/
def simpleEscape? : Char → Option Char
  | 'b' => some '\x08'
  | 't' => some '\t'
  | 'n' => some '\n'
  | 'f' => some '\x0c'
  | 'r' => some '\r'
  | 'e' => some '\x1b'
  | '"' => some '"'
  | '\\' => some '\\'
  | _ => none

/-- The character of a number to base sixteen. -/
def numberedChar? (digits : Text) : Option Char := do
  let code ← Text.hexValue? digits
  if code.isValidChar then some (Char.ofNat code) else none

/-- Whether a string is in a gap: behind a backslash at the end of a line, all blanks and line
breaks up to the next character are left out. -/
inductive Gap
  | outside
  /-- The line has not ended yet. -/
  | opened
  /-- The line has ended. -/
  | crossed
  deriving DecidableEq

/-- A character put in front of a string that was read. -/
def prepend (c : Char) (r : Text × Text) : Text × Text := (c :: r.1, r.2)

/-- The end of a string of more than one line: one or two quotes before the closing ones belong to
the string. -/
def closeQuotes (quote : Char) : Text → Text × Text
  | a :: b :: t =>
    if a = quote then if b = quote then ([quote, quote], t) else ([quote], b :: t)
    else ([], a :: b :: t)
  | [a] => if a = quote then ([quote], []) else ([], [a])
  | [] => ([], [])

/-- The rest of a string, through the quotes that end it.  Backslashes escape between double
quotes, and a line break is a line feed. -/
def readQuoted (quote : Char) (manyLines : Bool) : Gap → Text → Option (Text × Text)
  | _, [] => none
  | gap, '\r' :: '\n' :: t =>
    if ¬ manyLines then none
    else if gap = .outside then (readQuoted quote manyLines .outside t).map (prepend '\n')
    else readQuoted quote manyLines .crossed t
  | gap, '\n' :: t =>
    if ¬ manyLines then none
    else if gap = .outside then (readQuoted quote manyLines .outside t).map (prepend '\n')
    else readQuoted quote manyLines .crossed t
  | gap, c :: t =>
    if gap ≠ .outside ∧ isGap c then readQuoted quote manyLines gap t
    else if gap = .opened then none
    else if c = quote then
      if ¬ manyLines then some ([], t)
      else
        match Text.dropMark? [quote, quote] t with
        | some t => some (closeQuotes quote t)
        | none => (readQuoted quote manyLines .outside t).map (prepend c)
    else if c = '\\' ∧ quote = '"' then
      match t with
      | 'x' :: a :: b :: t => do
        return prepend (← numberedChar? [a, b]) (← readQuoted quote manyLines .outside t)
      | 'u' :: a :: b :: c :: d :: t => do
        return prepend (← numberedChar? [a, b, c, d]) (← readQuoted quote manyLines .outside t)
      | 'U' :: a :: b :: c :: d :: e :: f :: g :: h :: t => do
        return prepend (← numberedChar? [a, b, c, d, e, f, g, h])
          (← readQuoted quote manyLines .outside t)
      | e :: t =>
        match simpleEscape? e with
        | some c => (readQuoted quote manyLines .outside t).map (prepend c)
        | none =>
          if manyLines ∧ (isGap e ∨ e = '\n' ∨ e = '\r') then
            readQuoted quote manyLines .opened (e :: t)
          else none
      | [] => none
    else if isPlain c then (readQuoted quote manyLines .outside t).map (prepend c)
    else none

/-- The string that begins a text.  A line break right behind three opening quotes is left out. -/
def readText (t : Text) : Option (Text × Text) :=
  let many (quote : Char) (t : Text) := readQuoted quote true .outside ((dropBreak? t).getD t)
  match t with
  | '"' :: '"' :: '"' :: t => many '"' t
  | '\'' :: '\'' :: '\'' :: t => many '\'' t
  | '"' :: t => readQuoted '"' false .outside t
  | '\'' :: t => readQuoted '\'' false .outside t
  | _ => none

/-! ## Integers -/

/-- Digits to a base, with single underscores between them. -/
def grouped (base value : Nat) (behindDigit : Bool) : Text → Option Nat
  | [] => if behindDigit then some value else none
  | '_' :: t => if behindDigit then grouped base value false t else none
  | c :: t => do grouped base (base * value + (← Text.digitIn? base c)) true t

/-- Decimal digits without needless zeros. -/
def decimal (t : Text) : Option Nat :=
  if t.head? = some '0' ∧ t ≠ ['0'] then none else grouped 10 0 false t

/-- An integer that is not negative. -/
def integer? (t : Text) : Option Nat := do
  let n ← match t with
    | '0' :: 'x' :: t => grouped 16 0 false t
    | '0' :: 'o' :: t => grouped 8 0 false t
    | '0' :: 'b' :: t => grouped 2 0 false t
    | '+' :: t => decimal t
    | '-' :: t => (decimal t).filter (· = 0)
    | t => decimal t
  if n < 1 <<< 64 then some n else none

/-! ## Keys and values -/

/-- One part of a key. -/
def readKeyPart (t : Text) : Option (Text × Text) :=
  match t with
  | '"' :: t => readQuoted '"' false .outside t
  | '\'' :: t => readQuoted '\'' false .outside t
  | t => if t.takeWhile isBare = [] then none else some (t.takeWhile isBare, t.dropWhile isBare)

/-- A key of one part or two; no setting has more. -/
def readKey (t : Text) : Option (List Text × Text) := do
  let (first, t) ← readKeyPart t
  match skipGap t with
  | '.' :: t =>
    let (second, t) ← readKeyPart (skipGap t)
    return ([first, second], skipGap t)
  | t => return ([first], t)

/-- The text behind a mark. -/
def expect (mark : Char) : Text → Option Text
  | [] => none
  | c :: t => if c = mark then some t else none

/-- Brackets or braces around nothing. -/
def readEmpty : Text → Option Text
  | '[' :: t => do expect ']' (← skipLines false t)
  | '\x7b' :: t => do expect '\x7d' (← skipLines false t)
  | _ => none

/-- A table with one key, whose value has no content.  A comma may stand behind the value. -/
def readMember (t : Text) : Option (Text × Text) := do
  let t ← skipLines false (← expect '\x7b' t)
  let (key, t) ← readKeyPart t
  let t ← expect '=' (skipGap t)
  let t ← skipLines false (← readEmpty (skipGap t))
  let t ← match t with
    | ',' :: t => skipLines false t
    | t => some t
  return (key, ← expect '\x7d' t)

/-- The value that begins a text. -/
def readValue (t : Text) : Option (Value × Text) :=
  let word (c : Char) : Bool := isBare c || c = '+'
  match readText t, readEmpty t, readMember t, integer? (t.takeWhile word) with
  | some (s, t), _, _, _ => some (.text s, t)
  | _, some t, _, _ => some (.empty, t)
  | _, _, some (key, t), _ => some (.member key, t)
  | _, _, _, some n => some (.integer n, t.dropWhile word)
  | none, none, none, none => none

/-! ## Documents -/

/-- A line of a document. -/
inductive Line
  | blank
  | header (path : List Text)
  | entry (key : List Text) (value : Value)
  deriving DecidableEq, Repr

/-- The line that begins a text, which for a value may go over several lines. -/
def readLine (t : Text) : Option (Line × Text) :=
  match endLine t with
  | some t => some (.blank, t)
  | none =>
    match skipGap t with
    | '[' :: t => do
      let (path, t) ← readKey (skipGap t)
      return (.header path, ← endLine (← expect ']' t))
    | t => do
      let (key, t) ← readKey t
      let (value, t) ← readValue (skipGap (← expect '=' t))
      return (.entry key value, ← endLine t)

/-- All lines of a document; each takes at least one character of it. -/
def readLines : (fuel : Nat) → Text → Option (List Line)
  | _, [] => some []
  | 0, _ => none
  | fuel + 1, t => do
    let (line, t) ← readLine t
    return line :: (← readLines fuel t)

/-- The sections that lines make up, the one that is open given first. -/
def sections (current : Section) : List Line → List Section
  | [] => [current]
  | .blank :: lines => sections current lines
  | .header path :: lines => current :: sections ⟨path, []⟩ lines
  | .entry key value :: lines =>
    sections { current with entries := current.entries ++ [(key, value)] } lines

/-- The values that are given for a key. -/
def valuesOf (key : List Text) (entries : List (List Text × Value)) : List Value :=
  (entries.filter fun (k, _) => k = key).map (·.2)

/-- A setting that is given at most once. -/
def single {α : Type} (unset : α) (of? : Value → Option α) : List Value → Option α
  | [] => some unset
  | [value] => of? value
  | _ => none

/-- The language that a value names, as its tag or as the only key of a table. -/
def Value.language? : Value → Option Language
  | .text tag => Language.ofTag? tag
  | .member tag => Language.ofTag? tag
  | _ => none

/-- The integer that a value is. -/
def Value.integer? : Value → Option Nat
  | .integer n => some n
  | _ => none

/-- The text that a value is. -/
def Value.text? : Value → Option Text
  | .text t => some t
  | _ => none

/-- An entry `language.tag` without content, as the value of the language. -/
def dottedLanguage : List Text × Value → Option Value
  | ([name, tag], .empty) => if name = "language".toList then some (.member tag) else none
  | _ => none

/-- The language that headers name. -/
def headedLanguage? (sections : List Section) : Option Language :=
  let under (name tag : Text) : Option Language :=
    if name = "language".toList then Language.ofTag? tag else none
  match sections with
  | [⟨[name], [([tag], .empty)]⟩] => under name tag
  | [⟨[name, tag], []⟩] => under name tag
  | [⟨[outer], []⟩, ⟨[name, tag], []⟩] => if outer = name then under name tag else none
  | [⟨[name, tag], []⟩, ⟨[outer], []⟩] => if outer = name then under name tag else none
  | _ => none

/-- The settings that the sections of a document give.  Every entry must belong to a setting. -/
def ofSections (first : Section) (rest : List Section) : Option Settings := do
  let plain (name : Text) : List Value := valuesOf [name] first.entries
  let languages := plain "language" ++ first.entries.filterMap dottedLanguage
  let known := (plain "run_delay_ms").length + (plain "indent").length + languages.length
  if known ≠ first.entries.length then failure
  let unset : Settings := {}
  return {
    runDelay := ← single unset.runDelay Value.integer? (plain "run_delay_ms")
    indent := ← single unset.indent Value.text? (plain "indent")
    language := ← (
      if rest = [] then single unset.language Value.language? languages
      else if languages = [] then headedLanguage? rest
      else none) }

/-- The settings of a document, which may begin with a byte order mark. -/
def read? (t : Text) : Option Settings := do
  let t := (Text.dropMark? ['\ufeff'] t).getD t
  match sections ⟨[], []⟩ (← readLines (t.length + 1) t) with
  | first :: rest => ofSections first rest
  | [] => none

/-- The settings of a document, or the fault to report. -/
def read (t : Text) : Except Error Settings :=
  match read? t with
  | some settings => .ok settings
  | none => .error .settings

end Workbench.Settings
