import Workbench.Console.Program

/-!
# Main — the program at a terminal or behind a pipe

Reads bytes, asks the library what they mean, prints what it says.  Lines are read as they come, so
that a user or a client sees each answer before the next question.
-/

namespace Workbench.Terminal

/-- The next bytes of a stream, as many as asked for unless it ends. -/
partial def readBytes (input : IO.FS.Stream) (count : Nat) : IO Bytes := do
  if count = 0 then return []
  let bytes ← input.read (USize.ofNat (min count 65536))
  if bytes.isEmpty then return []
  return bytes.toList ++ (← readBytes input (count - bytes.size))

/-- The bytes of the next line of a stream; none at its end. -/
partial def readLine (input : IO.FS.Stream) : IO Bytes := do
  match ← readBytes input 1 with
  | [b] => if b = 10 then return [b] else return b :: (← readLine input)
  | _ => return []

/-- What a file holds. -/
def readFile (path : Text) : IO (Except StreamFault Bytes) := do
  try
    return .ok (← IO.FS.readBinFile (String.ofList path)).toList
  catch
    | .noFileOrDirectory .. => return .error .noSuchFile
    | .inappropriateType .. => return .error .isDirectory
    | e => return .error (.system (toString e))

/-- Prints a text and flushes the stream. -/
def print (stream : IO.FS.Stream) (t : Text) : IO Unit := do
  stream.putStr (String.ofList t)
  stream.flush

/-- Reports the fault that ended the program, if one did. -/
def exitWith (fault : Option Error) : IO UInt32 := do
  match fault with
  | none => return 0
  | some fault =>
    print (← IO.getStderr) (Program.complaint fault)
    return 1

/-- Waits as long as a run waits. -/
def pause (s : Session) : IO Unit := IO.sleep (UInt32.ofNat (min s.settings.runDelay ((1 <<< 32) - 1)))

/-- Answers the lines of a user. -/
partial def converse (s : Session) : IO UInt32 := do
  print (← IO.getStderr) (Console.prompt s)
  match ← readLine (← IO.getStdin) with
  | [] => return 0
  | bytes =>
    match Text.decode bytes with
    | none => exitWith (some (.stream .notUtf8))
    | some line =>
      let file ← match Console.readLine line with
        | .ok (some (.load path)) => readFile path
        | .ok (some .run) => do
          pause s
          pure (.error .noSuchFile)
        | _ => pure (.error .noSuchFile)
      let r := Console.respond (fun _ => file) s line
      print (← IO.getStdout) r.out
      print (← IO.getStderr) r.err
      if r.stays then converse r.session else return 0

/-- The length of the next body; none at the end of the stream. -/
partial def readHeader (input : IO.FS.Stream) (announced : Announced) :
    IO (Except StreamFault (Option (Except Error Nat))) := do
  match ← readLine input with
  | [] => return .ok none
  | bytes =>
    match Text.decode bytes with
    | none => return .error .notUtf8
    | some line =>
      match announced.read line with
      | .inr length => return .ok (some length)
      | .inl announced => readHeader input announced

/-- Passes over bytes of a stream. -/
partial def skipBytes (input : IO.FS.Stream) (count : Nat) : IO Unit := do
  let bytes ← readBytes input (min count 65536)
  unless bytes.isEmpty do skipBytes input (count - bytes.length)

/-- The body of a message, or nothing in the place of one that is too long. -/
def bodyBytes (input : IO.FS.Stream) : Except Error Nat → IO Bytes
  | .error _ => return []
  | .ok length => do
    if maxBody < length then
      skipBytes input length
      return []
    else readBytes input length

/-- Answers the messages of a client. -/
partial def serve (v : Server) : IO UInt32 := do
  let input ← IO.getStdin
  match ← readHeader input none with
  | .error fault => exitWith (some (.stream fault))
  | .ok none => return 0
  | .ok (some length) =>
    let received := (readBody length (← bodyBytes input length)).1
    if let .ok ⟨_, _, .request name _⟩ := received then
      if name = "run".toList then pause v.session
    let (messages, v, status) := v.step received
    print (← IO.getStdout) (messages.flatMap Message.frame)
    match status with
    | .goesOn => serve v
    | .ended fault => exitWith fault

/-- The files that an invocation may read its settings from, as they are now. -/
def settingsFiles (arguments : List Text) (settingsFile : Option Text) : IO Files := do
  match (Program.explicitFile arguments).or settingsFile with
  | none => return fun _ => .error .noSuchFile
  | some path =>
    let content ← readFile path
    return fun _ => content

end Workbench.Terminal

open Workbench in
/-- Runs the program: serves a client or talks to a user, as the arguments say. -/
def main (arguments : List String) : IO UInt32 := do
  let arguments := arguments.map String.toList
  let settingsFile := (← IO.getEnv "FAKE_COMPILER_CONFIG").map String.toList
  let invocation : Program.Invocation :=
    ⟨arguments, settingsFile, ← Terminal.settingsFiles arguments settingsFile⟩
  match invocation.settings with
  | .error fault => Terminal.exitWith (some fault)
  | .ok settings =>
    let session := Session.new settings {}
    if invocation.serves then Terminal.serve { session }
    else
      Terminal.print (← IO.getStderr) (Console.greeting session)
      Terminal.converse session
