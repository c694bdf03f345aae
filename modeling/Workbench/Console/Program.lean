import Workbench.Console.Basic
import Workbench.Settings.Reader
import Workbench.Wire.Server

/-!
# Console/Program — the workbench as a program

The arguments say which settings to read and who drives the session: a user at a console, or a
client that speaks the message protocol.
-/

namespace Workbench.Program

/-- What the program is started with. -/
structure Invocation where
  arguments : List Text
  /-- The settings file that the environment names. -/
  settingsFile : Option Text
  files : Files

/-- Whether a client drives the session. -/
def Invocation.serves (i : Invocation) : Bool :=
  i.arguments.any fun a => a = "--serve".toList || a = "--protocol".toList

/-- The argument behind the first `--config`. -/
def explicitFile : List Text → Option Text
  | [] => none
  | a :: rest => if a = "--config".toList then rest.head? else explicitFile rest

/-- The settings: of the file that an argument names, else of the one that the environment names,
else those that nobody changed. -/
def Invocation.settings (i : Invocation) : Except Error Settings :=
  match (explicitFile i.arguments).or i.settingsFile with
  | none => .ok {}
  | some path =>
    match i.files.text path with
    | .error fault => .error (.stream fault)
    | .ok t => Settings.read t

/-- What a run of the program leaves behind. -/
structure Transcript where
  code : Nat
  out : Text
  err : Text
  deriving DecidableEq, Repr

/-- A fault, as the program reports it at its end. -/
def complaint (fault : Error) : Text := Console.line ("fake-compiler: " ++ fault.message)

/-- A transcript that ends with a fault, if there is one. -/
def close (out err : Text) : Option Error → Transcript
  | none => ⟨0, out, err⟩
  | some fault => ⟨1, out, err ++ complaint fault⟩

/-- Runs the program on an input. -/
def run (i : Invocation) (input : Bytes) : Transcript :=
  match i.settings with
  | .error fault => close [] [] (some fault)
  | .ok settings =>
    let session := Session.new settings {}
    if i.serves then
      let (sent, _, fault) := Server.serve session input
      close (sent.flatMap Message.frame) [] fault
    else
      let d := Console.converse i.files session input
      close d.out (Console.greeting session ++ d.err) d.fault

end Workbench.Program
