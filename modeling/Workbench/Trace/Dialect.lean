import Workbench.Trace.Basic

/-!
# Trace/Dialect — how Python and Java print

Python's argument reaches to the last parenthesis of its line, Java's to the first one that a
semicolon follows.  Python shows every line of its text, Java only those with something on them.
-/

namespace Workbench
namespace Dialect

/-! ## Python -/

/-- The argument of `print(…)`, up to the last closing parenthesis of the line. -/
def pythonArgument? : Text → Option Text := callArgument "print(" (Text.beforeLast ')')

/-- Whether an expression begins a formatted literal. -/
def isFormatted (t : Text) : Bool :=
  (Text.dropMark? "f\"" t).isSome || (Text.dropMark? "f'" t).isSome

/-- What a Python argument shows. -/
def pythonResolve (argument : Text) : Text :=
  let content := Text.trim argument
  Argument.breakLines <|
    if isFormatted content then Argument.fillPlaceholders (Argument.literalBody content)
    else Argument.stripQuotes content

/-- Python's print statements. -/
def python : Dialect where
  opening := [.info ">>> Python Execution Started", .blank]
  closing := [.blank, .info ">>> Execution Completed Successfully"]
  argument? := pythonArgument?
  resolve := pythonResolve
  present := Text.pieces '\n'

/-! ## Java -/

/-- The argument of `System.out.println(…);`, up to the first closing parenthesis with a semicolon
behind it. -/
def javaArgument? : Text → Option Text :=
  callArgument "System.out.println(" fun t => (Text.cutFirst ");" t).map (·.1)

/-- What a Java argument shows. -/
def javaResolve (argument : Text) : Text :=
  Argument.breakLines (Argument.joinOperands (Argument.dropQuotes (Text.trim argument)))

/-- A text of one line is shown as it is; of more lines, those that are not blank are shown
trimmed. -/
def javaPresent (t : Text) : List Text :=
  if '\n' ∈ t then ((Text.pieces '\n' t).map Text.trim).filter (· ≠ []) else [t]

/-- Java's print statements. -/
def java : Dialect where
  opening := [.info ">>> Compiling Java...", .info ">>> Running Main class...", .blank]
  closing := [.blank, .info ">>> BUILD SUCCESSFUL"]
  argument? := javaArgument?
  resolve := javaResolve
  present := javaPresent

/-- The dialect of a language that is simulated. -/
def of? : Language → Option Dialect
  | .python => some python
  | .java => some java
  | .html => none

theorem isSome_of? (l : Language) : (of? l).isSome = !l.isMarkup := by cases l <;> rfl

end Dialect

/-- The simulated log of a source; markup has none. -/
def trace (l : Language) (source : Text) : Log :=
  match Dialect.of? l with
  | some d => (d.extract source).log
  | none => []

end Workbench
