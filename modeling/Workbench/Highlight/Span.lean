import Workbench.Text.Basic

/-!
# Highlight/Span — classified ranges of a source

A span is a range of bytes with what it holds.  The spans that a source has so far are a list in
which each one ends before the next begins, so that the first span that ends behind a place tells
everything about the place: `covering` and `claim?` look at that one alone.
-/

namespace Workbench.Highlight

/-- What a highlighted piece of source is. -/
inductive Kind
  | keyword
  | string
  | number
  | comment
  | builtin
  | function
  deriving DecidableEq, Repr

/-- The name of a kind in markup and messages. -/
def Kind.name : Kind → Text
  | keyword => "keyword"
  | string => "string"
  | number => "number"
  | comment => "comment"
  | builtin => "builtin"
  | function => "function"

/-- Every kind. -/
def Kind.all : List Kind := [keyword, string, number, comment, builtin, function]

/-- The kind of a name. -/
def Kind.ofName? (t : Text) : Option Kind := all.find? fun k => k.name = t

@[simp] theorem Kind.ofName?_name (k : Kind) : ofName? k.name = some k := by cases k <;> rfl

/-- The bytes from `start` up to `stop`, and what they hold. -/
structure Span where
  start : Nat
  stop : Nat
  kind : Kind
  deriving DecidableEq, Repr

/-- The spans from the first one on that ends behind `offset`. -/
def endingAfter (offset : Nat) (spans : List Span) : List Span :=
  spans.dropWhile fun s => s.stop ≤ offset

/-- The end of the span that covers `offset`. -/
def covering (offset : Nat) (spans : List Span) : Option Nat :=
  match endingAfter offset spans with
  | [] => none
  | s :: _ => if s.start ≤ offset then some s.stop else none

/-- The spans with one more, if that one holds something and meets none of them. -/
def claim? (spans : List Span) (new : Span) : Option (List Span) :=
  let later := endingAfter new.start spans
  let fits := later.head?.all fun s => new.stop ≤ s.start
  if new.start < new.stop ∧ fits then
    some (spans.takeWhile (fun s => s.stop ≤ new.start) ++ new :: later)
  else none

end Workbench.Highlight
