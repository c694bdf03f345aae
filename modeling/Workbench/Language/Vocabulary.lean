import Workbench.Language.Basic

/-!
# Language/Vocabulary — the words that are highlighted

A word that is in both tables of a language counts as a builtin.  Every word is made of ASCII
letters, so a word of a source is in a table as a whole or not at all.
-/

namespace Workbench.Language

/-- The keywords of Python. -/
def pythonKeywords : List Text :=
  ["def", "return", "if", "else", "for", "in", "range", "import", "from", "class", "True",
   "False", "None", "and", "or", "not", "while", "break", "continue", "pass", "try", "except",
   "finally", "with", "as", "lambda", "yield"]

/-- The builtins of Python; `range` is a keyword as well. -/
def pythonBuiltins : List Text :=
  ["print", "len", "range", "str", "int", "float", "list", "dict", "set", "tuple", "sum", "min",
   "max", "abs", "round", "sorted", "enumerate", "zip", "map", "filter"]

/-- The keywords of Java. -/
def javaKeywords : List Text :=
  ["public", "private", "protected", "static", "void", "int", "double", "float", "String",
   "boolean", "class", "return", "if", "else", "for", "while", "new", "this", "super", "extends",
   "implements", "import", "package", "true", "false", "null", "try", "catch", "finally", "throw",
   "throws"]

/-- The builtins of Java; `String` is a keyword as well. -/
def javaBuiltins : List Text :=
  ["System", "String", "Math", "Integer", "Double", "Boolean", "Array", "List", "ArrayList",
   "HashMap", "println", "print"]

/-- The names of tags. -/
def htmlKeywords : List Text :=
  ["DOCTYPE", "html", "head", "body", "title", "style", "script", "div", "span", "a", "img",
   "input", "button", "form", "meta", "link"]

/-- The words that belong to the language itself. -/
def keywords : Language → List Text
  | python => pythonKeywords
  | java => javaKeywords
  | html => htmlKeywords

/-- The names that the language brings along; markup has none. -/
def builtins : Language → List Text
  | python => pythonBuiltins
  | java => javaBuiltins
  | html => []

end Workbench.Language
