import Workbench.Language.Basic
import Workbench.Text.Numeral

/-!
# Error — what can go wrong, and how it is worded

Each fault is a cause with its data; `Error.message` is the one place where it gets its words.
-/

namespace Workbench

/-- Why bytes could not be had, or not as text. -/
inductive StreamFault
  | notUtf8
  | endsEarly
  | noSuchFile
  | isDirectory
  /-- Anything else, in the words of the system. -/
  | system (reason : Text)
  deriving DecidableEq, Repr

/-- The words for a fault of a stream. -/
def StreamFault.message : StreamFault → Text
  | notUtf8 => "stream did not contain valid UTF-8"
  | endsEarly => "failed to fill whole buffer"
  | noSuchFile => "No such file or directory (os error 2)"
  | isDirectory => "Is a directory (os error 21)"
  | system reason => reason

/-- Why the arguments of a command do not fit it. -/
inductive ArgumentFault
  | missingField (name : Text)
  | wrongType (found expected : Text)
  | wrongValue (found expected : Text)
  | unknownLanguage (tag : Text)
  | noElements (fields : Text)
  | extraElements (count : Nat)
  deriving DecidableEq, Repr

/-- The words for a fault of arguments. -/
def ArgumentFault.message : ArgumentFault → Text
  | missingField name => "missing field `" ++ name ++ "`"
  | wrongType found expected => "invalid type: " ++ found ++ ", expected " ++ expected
  | wrongValue found expected => "invalid value: " ++ found ++ ", expected " ++ expected
  | unknownLanguage tag =>
    "unknown variant `" ++ tag ++ "`, expected one of " ++
      Text.joined ", " (Language.all.map fun l => "`" ++ l.tag ++ "`")
  | noElements fields => "invalid length 0, expected " ++ fields
  | extraElements count =>
    "invalid length " ++ Text.ofNat count ++ ", expected fewer elements in array"

/-- A fault of the workbench.  Faults of a pattern, of the host of the surfaces and of the message
stream carry the reason that the faulty part gives. -/
inductive Error
  | unknownLanguage (tag : Text)
  | pattern (reason : Text)
  | surface (reason : Text)
  | settings
  | stream (fault : StreamFault)
  | malformedJson
  | arguments (fault : ArgumentFault)
  | protocol (reason : Text)
  deriving DecidableEq, Repr

/-- The words for a fault. -/
def Error.message : Error → Text
  | unknownLanguage tag =>
    "unknown language '" ++ tag ++ "' (expected python, java or html)"
  | pattern reason => "pattern error: " ++ reason
  | surface reason => "surface error: " ++ reason
  | settings => "invalid config: no settings document"
  | stream fault => fault.message
  | malformedJson => "malformed JSON"
  | arguments fault => fault.message
  | protocol reason => "protocol error: " ++ reason

/-- The language that a user names, or the fault to report. -/
def Language.read (t : Text) : Except Error Language :=
  match Language.named? t with
  | some l => .ok l
  | none => .error (.unknownLanguage t)

end Workbench
