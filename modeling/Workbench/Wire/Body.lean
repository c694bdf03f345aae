import Workbench.Json.Value
import Workbench.Session.Basic

/-!
# Wire/Body — what responses and events tell

A body is an object whose members are given in order of their keys, so that a body is its own
sorted form.
-/

namespace Workbench.Body

/-- An entry of a log. -/
def entry (e : Log.Entry) : Json := .object [("text", .string e.text), ("type", .string e.kind.name)]

/-- The entries of a log, oldest first. -/
def log (log : Log) : Json := .array (log.map entry)

/-- A highlighted range of the source. -/
def span (s : Highlight.Span) : Json :=
  .object [
    ("class", .string s.kind.name),
    ("range", .object [("end", .ofNat s.stop), ("start", .ofNat s.start)])]

/-- What a client is told about the workbench when it introduces itself. -/
def introduction (s : Session) : Json :=
  .object [
    ("indent", .string s.settings.indent),
    ("language", .string s.bench.language.tag),
    ("languages", .array (Language.all.map fun l => .string l.tag)),
    ("runDelayMs", .ofNat s.settings.runDelay)]

/-- The bench as a client sees it. -/
def state (b : Bench) : Json :=
  .object [
    ("cursor", .ofNat b.caret),
    ("language", .string b.language.tag),
    ("log", log b.log),
    ("running", .bool b.running),
    ("source", .string b.source)]

/-- The output of a run. -/
def output (trace : Log) : Json := .object [("log", log trace)]

/-- The document that a run has put on a surface. -/
def shown (document : Text) (id : SurfaceId) : Json :=
  .object [("document", .string document), ("surface", .ofNat id)]

/-- That no run has taken place. -/
def cancelled : Json := .object [("cancelled", .bool true)]

/-- The source after a switch of language. -/
def switched (b : Bench) : Json :=
  .object [("language", .string b.language.tag), ("source", .string b.source)]

/-- The source after an indent, and where the caret stands in it. -/
def indented (b : Bench) : Json :=
  .object [("cursor", .ofNat b.caret), ("source", .string b.source)]

/-- The highlighting of a source. -/
def highlighting (markup : Text) (spans : List Highlight.Span) : Json :=
  .object [("markup", .string markup), ("spans", .array (spans.map span))]

end Workbench.Body
