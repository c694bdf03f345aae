import Workbench.Error
import Workbench.Log
import Workbench.Trace.Argument

/-!
# Trace/Basic — the simulated trace of a source

A run of a textual language is read off its source line by line: a line that holds a print call
shows what the call's argument shows.  What differs between languages is a `Dialect`; the trace is
one function of it.
-/

namespace Workbench

/-- What became of an extraction: the entries it gave, and the fault that ended it early. -/
structure Extraction where
  entries : Log
  fault : Option Error

/-- The log of an extraction: a fault is one last entry. -/
def Extraction.log (e : Extraction) : Log :=
  match e.fault with
  | none => e.entries
  | some fault => e.entries ++ [.error ("Error: " ++ fault.message)]

/-- How a language prints. -/
structure Dialect where
  /-- The entries before the trace. -/
  opening : Log
  /-- The entries behind the trace. -/
  closing : Log
  /-- The argument of the print call of a line. -/
  argument? : Text → Option Text
  /-- What an argument shows. -/
  resolve : Text → Text
  /-- The lines in which it is shown. -/
  present : Text → List Text

namespace Dialect

/-- The entries of one line. -/
def lineEntries (d : Dialect) (line : Text) : Log :=
  match d.argument? line with
  | none => []
  | some argument => (d.present (d.resolve argument)).map .success

/-- The entries of all lines. -/
def body (d : Dialect) (source : Text) : Log := (Text.pieces '\n' source).flatMap d.lineEntries

/-- The trace of a source. -/
def extract (d : Dialect) (source : Text) : Extraction where
  entries := d.opening ++ d.body source ++ d.closing
  fault := none

end Dialect

/-- The argument of the first call that is closed: `opening` begins a call, and `close` finds the
argument in what follows. -/
def callArgument (opening : Text) (close : Text → Option Text) : Text → Option Text
  | [] => none
  | c :: t =>
    match (Text.dropMark? opening (c :: t)).bind close with
    | some argument => some argument
    | none => callArgument opening close t

end Workbench
