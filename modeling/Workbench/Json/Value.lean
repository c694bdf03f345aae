import Workbench.Json.Number

/-!
# Json/Value — the values that messages are made of

An object keeps its members in the order in which they are written.  Where only the content
counts, `sorted` gives the one form of it: keys in order, and of a repeated key the last value.
-/

namespace Workbench

/-- A JSON value. -/
inductive Json
  | null
  | bool (b : Bool)
  | number (n : Json.Number)
  | string (t : Text)
  | array (items : List Json)
  | object (members : List (Text × Json))
  deriving Repr

namespace Json

/-- The members of an object. -/
abbrev Members := List (Text × Json)

/-- A natural number as a value. -/
def ofNat (n : Nat) : Json := .number (.natural n)

/-- Whether a key comes before another one: the order of UTF-8, which is that of code points. -/
def keyBefore : Text → Text → Bool
  | _, [] => false
  | [], _ :: _ => true
  | c :: s, d :: t => c.toNat < d.toNat || (c = d && keyBefore s t)

/-- Members in order of their keys, with the value of one key set. -/
def setMember (key : Text) (value : Json) : Members → Members
  | [] => [(key, value)]
  | (k, v) :: rest =>
    if k = key then (key, value) :: rest
    else if keyBefore key k then (key, value) :: (k, v) :: rest
    else (k, v) :: setMember key value rest

mutual

/-- The value with the members of every object in order of their keys, each key once. -/
def sorted : Json → Json
  | array items => array (sortedItems items)
  | object members => object (sortedMembers members)
  | null => null
  | bool b => bool b
  | number n => number n
  | string t => string t

/-- The items in sorted form. -/
def sortedItems : List Json → List Json
  | [] => []
  | item :: items => item.sorted :: sortedItems items

/-- The members in order of their keys; a later value of a key takes the place of an earlier
one. -/
def sortedMembers : Members → Members
  | [] => []
  | (key, value) :: rest =>
    let rest := sortedMembers rest
    if (rest.lookup key).isSome then rest else setMember key value.sorted rest

end

end Json
end Workbench
