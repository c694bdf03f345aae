import Workbench.Language.Basic

/-!
# Settings/Basic — what a user may set

Every setting has a value of its own if the user says nothing about it.
-/

namespace Workbench

/-- What a user may set. -/
structure Settings where
  /-- The pause before a run, in milliseconds. -/
  runDelay : Nat := 100
  /-- What the indent command inserts. -/
  indent : Text := "    "
  /-- The language to begin with. -/
  language : Language := .python
  deriving DecidableEq, Repr

end Workbench
