import Workbench.Highlight.Sweep

/-!
# Highlight/Markup — a source with its spans as tags

Every span stands in a tag that names its kind, and the three characters that markup uses for
itself are escaped everywhere, so that each `<` of the result belongs to a tag.
-/

namespace Workbench.Highlight

/-- A character as it is written between tags. -/
def escape : Char → Text
  | '&' => "&amp;"
  | '<' => "&lt;"
  | '>' => "&gt;"
  | c => [c]

/-- A text as it is written between tags. -/
def escaped (t : Text) : Text := t.flatMap escape

/-- The tag that opens a span. -/
def openTag (kind : Kind) : Text := "<span class=\"" ++ kind.name ++ "\">"

/-- The tag that closes a span. -/
def closeTag : Text := "</span>"

/-- The markup of the rest of a source, which begins at `offset`. -/
def renderFrom (offset : Nat) (rest : Text) : List Span → Text
  | [] => escaped rest
  | s :: spans =>
    let (gap, rest) := Text.splitBytes rest (s.start - offset)
    let (body, rest) := Text.splitBytes rest (s.stop - s.start)
    escaped gap ++ openTag s.kind ++ escaped body ++ closeTag ++ renderFrom s.stop rest spans

/-- The markup of a source with spans, which are in order and do not meet. -/
def render (source : Text) (spans : List Span) : Text := renderFrom 0 source spans

/-- The markup of a source. -/
def markup (l : Language) (source : Text) : Text := render source (tokenize l source)

end Workbench.Highlight
