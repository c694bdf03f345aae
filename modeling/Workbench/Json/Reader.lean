import Workbench.Json.Value

/-!
# Json/Reader — values from text

Reading is strict: nothing but a value and blanks around it, control characters only as escapes,
surrogates only in pairs, and no more than `maxDepth` arrays and objects around one another.
Every reader returns the text behind what it read.
-/

namespace Workbench.Json

/-- Values may stand in this many arrays and objects. -/
def maxDepth : Nat := 127

/-- The blanks between the parts of a value. -/
def isSpace (c : Char) : Bool := c = ' ' || c = '\t' || c = '\n' || c = '\r'

/-- The text behind the blanks at its start. -/
def skip (t : Text) : Text := t.dropWhile isSpace

/-! ## Strings -/

/-- What a letter behind a backslash stands for. -/
def simpleEscape? : Char → Option Char
  | '"' => some '"'
  | '\\' => some '\\'
  | '/' => some '/'
  | 'b' => some '\x08'
  | 'f' => some '\x0c'
  | 'n' => some '\n'
  | 'r' => some '\r'
  | 't' => some '\t'
  | _ => none

/-- The character of two units of a surrogate pair. -/
def surrogatePair? (high low : Nat) : Option Char :=
  if 0xD800 ≤ high ∧ high < 0xDC00 ∧ 0xDC00 ≤ low ∧ low < 0xE000 then
    some (Char.ofNat (0x10000 + (high - 0xD800) * 0x400 + (low - 0xDC00)))
  else none

/-- A character put in front of a string that was read. -/
def prepend (c : Char) (r : Text × Text) : Text × Text := (c :: r.1, r.2)

/-- The rest of a string, through the quote that ends it. -/
def readString : Text → Option (Text × Text)
  | [] => none
  | '"' :: t => some ([], t)
  | '\\' :: 'u' :: a :: b :: c :: d :: t => do
    let unit ← Text.hexValue? [a, b, c, d]
    if unit.isValidChar then return prepend (Char.ofNat unit) (← readString t)
    else
      match t with
      | '\\' :: 'u' :: e :: f :: g :: h :: t => do
        let c ← surrogatePair? unit (← Text.hexValue? [e, f, g, h])
        return prepend c (← readString t)
      | _ => none
  | '\\' :: c :: t => do return prepend (← simpleEscape? c) (← readString t)
  | c :: t => do if c.toNat < 0x20 ∨ c = '\\' then none else return prepend c (← readString t)

/-! ## Values -/

mutual

/-- The value that begins a text without blanks before it.  `depth` arrays and objects may still
be opened; `fuel` bounds the steps. -/
def readValue : (fuel depth : Nat) → Text → Option (Json × Text)
  | 0, _, _ => none
  | fuel + 1, depth, t =>
    match t with
    | '"' :: t => (readString t).map fun (s, t) => (string s, t)
    | '[' :: t =>
      match depth, skip t with
      | 0, _ => none
      | _ + 1, ']' :: t => some (array [], t)
      | depth + 1, t => (readItems fuel depth t).map fun (items, t) => (array items, t)
    | '\x7b' :: t =>
      match depth, skip t with
      | 0, _ => none
      | _ + 1, '\x7d' :: t => some (object [], t)
      | depth + 1, t => (readMembers fuel depth t).map fun (members, t) => (object members, t)
    | t =>
      match Text.dropMark? "null" t, Text.dropMark? "true" t, Text.dropMark? "false" t with
      | some t, _, _ => some (null, t)
      | _, some t, _ => some (bool true, t)
      | _, _, some t => some (bool false, t)
      | none, none, none => (Number.read t).map fun (n, t) => (number n, t)

/-- Items, at least one, through the bracket that ends them. -/
def readItems : (fuel depth : Nat) → Text → Option (List Json × Text)
  | 0, _, _ => none
  | fuel + 1, depth, t => do
    let (item, t) ← readValue fuel depth t
    match skip t with
    | ']' :: t => return ([item], t)
    | ',' :: t =>
      let (items, t) ← readItems fuel depth (skip t)
      return (item :: items, t)
    | _ => none

/-- Members, at least one, through the brace that ends them. -/
def readMembers : (fuel depth : Nat) → Text → Option (Members × Text)
  | 0, _, _ => none
  | fuel + 1, depth, t =>
    match t with
    | '"' :: t => do
      let (key, t) ← readString t
      match skip t with
      | ':' :: t =>
        let (value, t) ← readValue fuel depth (skip t)
        match skip t with
        | '\x7d' :: t => return ([(key, value)], t)
        | ',' :: t =>
          let (members, t) ← readMembers fuel depth (skip t)
          return ((key, value) :: members, t)
        | _ => none
      | _ => none
    | _ => none

end

/-- The value that a text holds.  Two steps for each character are more than enough: every step
either reads a character or is the first in an array or object that was just opened. -/
def read? (t : Text) : Option Json :=
  match readValue (2 * t.length + 1) maxDepth (skip t) with
  | some (value, rest) => if skip rest = [] then some value else none
  | none => none

end Workbench.Json
