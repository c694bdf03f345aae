import Workbench.Highlight.Lexeme
import Workbench.Text.Offset

/-!
# Highlight/Sweep — claiming spans from left to right

A sweep searches a source for matches and claims what they offer, unless a span from before is in
the way.  It is written for any search: what it needs of one is that a match begins at or behind
the place where the search began.  `resume` says where to go on; it is always farther right, so a
sweep ends.
-/

namespace Workbench.Highlight

/-- A place in a source: its offset, the character before it and the text behind it. -/
structure Cursor where
  offset : Nat
  before : Option Char
  rest : Text

namespace Cursor

/-- The start of a source. -/
def first (source : Text) : Cursor := ⟨0, none, source⟩

/-- The offset of the next character, and one more than its own at the end of the source. -/
def following (c : Cursor) : Nat :=
  match c.rest with
  | [] => c.offset + 1
  | x :: _ => c.offset + x.utf8Size

/-- The first place from `offset` on that is not before `target`. -/
def seekFrom (target offset : Nat) (before : Option Char) : Text → Cursor
  | [] => ⟨offset, before, []⟩
  | x :: t =>
    if offset < target then seekFrom target (offset + x.utf8Size) (some x) t
    else ⟨offset, before, x :: t⟩

/-- The first place from here on that is not before `target`. -/
def seek (c : Cursor) (target : Nat) : Cursor := seekFrom target c.offset c.before c.rest

end Cursor

/-- What a search finds: where, the span it offers, and the offset behind all that was read. -/
structure Match where
  place : Cursor
  span : Span
  stop : Nat

/-- Finds the next match from a place on. -/
abbrev Search := Cursor → Option Match

/-- The match of a lexeme at a place. -/
def Match.ofLexeme (place : Cursor) (l : Lexeme) : Match where
  place
  span := ⟨place.offset, place.offset + Text.bytes l.body, l.kind⟩
  stop := place.offset + Text.bytes l.body + Text.bytes l.tail

/-- The first place from here on at which something is recognised. -/
def leftmostFrom (r : Recogniser) (offset : Nat) (before : Option Char) : Text → Option Match
  | [] => (r before []).map (.ofLexeme ⟨offset, before, []⟩)
  | x :: t =>
    match r before (x :: t) with
    | some l => some (.ofLexeme ⟨offset, before, x :: t⟩ l)
    | none => leftmostFrom r (offset + x.utf8Size) (some x) t

/-- The search for what a recogniser recognises. -/
def leftmost (r : Recogniser) : Search := fun c => leftmostFrom r c.offset c.before c.rest

/-- Where a sweep goes on behind a match: behind what was read, if the span was claimed; else
behind the span in the way or, at least, one character on. -/
def resume (spans : List Span) (claimed : Bool) (m : Match) : Nat :=
  if claimed ∧ m.place.offset < m.stop then m.stop
  else
    match covering m.place.offset spans with
    | some stop => max stop m.place.following
    | none => m.place.following

/-- The spans after a match, and where the sweep goes on. -/
def offer (spans : List Span) (m : Match) : List Span × Nat :=
  match claim? spans m.span with
  | some spans => (spans, resume spans true m)
  | none => (spans, resume spans false m)

/-- The spans after a search has gone through the source from a place on. -/
def sweep (search : Search) (spans : List Span) (c : Cursor) : List Span :=
  match search c with
  | none => spans
  | some m =>
    let after := offer spans m
    let next := m.place.seek after.2
    if _ : next.offset = after.2 ∧ next.rest.length < c.rest.length then
      sweep search after.1 next
    else after.1
termination_by c.rest.length
decreasing_by
  rename_i onward
  exact onward.2

/-- The spans of a source: each tier in turn claims what the tiers before it left. -/
def tokenize (l : Language) (source : Text) : List Span :=
  (tiers l).foldl (fun spans r => sweep (leftmost r) spans (.first source)) []

end Workbench.Highlight
