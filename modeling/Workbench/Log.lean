import Workbench.Text.Basic

/-!
# Log — the trace of one run

A log is the list of its entries, oldest first.  It grows at its end and is emptied as a whole.
-/

namespace Workbench
namespace Log

/-- What an entry is for. -/
inductive Kind
  | info
  | success
  | error
  | warning
  | output
  deriving DecidableEq, Repr

/-- The name of a kind in messages. -/
def Kind.name : Kind → Text
  | info => "info"
  | success => "success"
  | error => "error"
  | warning => "warning"
  | output => "output"

/-- Every kind. -/
def Kind.all : List Kind := [info, success, error, warning, output]

/-- The kind of a name. -/
def Kind.ofName? (t : Text) : Option Kind := all.find? fun k => k.name = t

@[simp] theorem Kind.ofName?_name (k : Kind) : ofName? k.name = some k := by cases k <;> decide

/-- One line of output. -/
structure Entry where
  text : Text
  kind : Kind
  deriving DecidableEq, Repr

namespace Entry

/-- What goes on, told to the user. -/
def info (text : Text) : Entry := ⟨text, .info⟩

/-- What has come to a good end. -/
def success (text : Text) : Entry := ⟨text, .success⟩

/-- What has failed. -/
def error (text : Text) : Entry := ⟨text, .error⟩

/-- The empty line that sets a run apart. -/
def blank : Entry := ⟨[], .output⟩

end Entry
end Log

/-- The entries of one run, oldest first. -/
abbrev Log := List Log.Entry

/-- The texts of the entries of one kind. -/
def Log.textsOf (log : Log) (kind : Log.Kind) : List Text :=
  (log.filter fun e => e.kind = kind).map (·.text)

end Workbench
