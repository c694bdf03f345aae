import Workbench.Text.Blank

/-!
# Language/Basic — the three languages of the workbench

Python and Java are *simulated*: a run scans the source for print statements.  HTML is *markup*:
a run shows the document on a surface.
-/

namespace Workbench

/-- A language that the workbench knows. -/
inductive Language
  | python
  | java
  | html
  deriving DecidableEq, Repr

namespace Language

/-- Every language, in the order in which they are offered. -/
def all : List Language := [python, java, html]

theorem mem_all (l : Language) : l ∈ all := by cases l <;> decide

/-- The tag that names a language in messages and settings. -/
def tag : Language → Text
  | python => "python"
  | java => "java"
  | html => "html"

/-- The name shown to a reader. -/
def displayName : Language → Text
  | python => "Python"
  | java => "Java"
  | html => "HTML"

/-- Whether documents of the language are shown instead of simulated. -/
def isMarkup : Language → Bool
  | html => true
  | _ => false

/-- The language with exactly this tag. -/
def ofTag? (t : Text) : Option Language := all.find? fun l => l.tag = t

@[simp] theorem ofTag?_tag (l : Language) : ofTag? l.tag = some l := by cases l <;> decide

theorem ofTag?_eq_some_iff {t : Text} {l : Language} : ofTag? t = some l ↔ t = l.tag := by
  refine ⟨fun h => ?_, fun h => h ▸ ofTag?_tag l⟩
  have htag := List.find?_some h
  exact (of_decide_eq_true htag).symm

/-- The names that a user may type. -/
def names : Language → List Text
  | python => ["python", "py"]
  | java => ["java"]
  | html => ["html", "htm"]

/-- The language that a user names, in letters of either case and with blanks around them.  The
names are of ASCII letters that no character beyond ASCII has as its small form, so only ASCII
letters need to be made small. -/
def named? (t : Text) : Option Language :=
  all.find? fun l => (Text.trim t).map Char.toLower ∈ l.names

@[simp] theorem named?_tag (l : Language) : named? l.tag = some l := by cases l <;> decide

end Language
end Workbench
