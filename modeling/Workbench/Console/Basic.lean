import Workbench.Console.Words
import Workbench.Session.Basic
import Workbench.Wire.Frame

/-!
# Console/Basic — a session that is driven line by line

A line is split into words, the words are an instruction, and what the instruction does is printed:
results to the output, everything else to the error output.
-/

namespace Workbench

/-- What files hold, or why they cannot be read. -/
abbrev Files := Text → Except StreamFault Bytes

/-- The text of a file. -/
def Files.text (files : Files) (path : Text) : Except StreamFault Text :=
  match files path with
  | .error fault => .error fault
  | .ok bytes =>
    match Text.decode bytes with
    | some t => .ok t
    | none => .error .notUtf8

namespace Console

/-- What a user may ask for. -/
inductive Instruction
  | run
  | clear
  | language (tag : Text)
  | edit (lines : List Text)
  | load (path : Text)
  | indent (offset : Text)
  | showSource
  | highlight
  | help
  | quit
  deriving DecidableEq, Repr

/-- The instruction that words give: a name, and as many arguments as it takes. -/
def Instruction.ofWords? : List Text → Option Instruction
  | [] => none
  | name :: arguments =>
    match String.ofList name, arguments with
    | "run", _ | "r", _ => some run
    | "clear", _ | "c", _ => some clear
    | "lang", [tag] => some (language tag)
    | "edit", lines => some (edit lines)
    | "load", [path] => some (load path)
    | "indent", [offset] => some (indent offset)
    | "show", _ => some showSource
    | "highlight", _ => some highlight
    | "help", _ | "h", _ => some help
    | "quit", _ | "q", _ | "exit", _ => some quit
    | _, _ => none

/-- What the help says. -/
def helpText : Text :=
  Language.ofLines [
    "Commands:",
    "  run                 run the current source",
    "  clear               clear the output",
    "  lang <tag>          switch to python, java or html (discards edits)",
    "  edit <line>...      replace the source, one argument per line",
    "  load <path>         replace the source with a file's contents",
    "  indent <offset>     insert the indent at a byte offset",
    "  show                print the source",
    "  highlight           print the highlighted markup",
    "  help | quit"]

/-- A text as a line. -/
def line (t : Text) : Text := t ++ ['\n']

/-- The mark of an entry. -/
def mark : Log.Kind → Text
  | .info => "info"
  | .success => " ok "
  | .error => "err "
  | .warning => "warn"
  | .output => "    "

/-- A log, a line for each entry. -/
def printLog (log : Log) : Text := log.flatMap fun e => line ("[" ++ mark e.kind ++ "] " ++ e.text)

/-- The outcome of a run. -/
def printOutcome (source : Text) : Option Outcome → Text
  | some (.log log) => printLog log
  | some (.surface id) =>
    line ("rendered " ++ Text.ofNat (Text.bytes source) ++ " bytes into surface #" ++
      Text.ofNat id)
  | some .cancelled | none => line "run cancelled"

/-- Lines with their numbers, from `n` on. -/
def numbered (n : Nat) : List Text → Text
  | [] => []
  | l :: rest => line (Text.padLeft 4 (Text.ofNat n) ++ " | " ++ l) ++ numbered (n + 1) rest

/-- What became of a line: what is printed, the session afterwards, and whether the user stays. -/
structure Response where
  out : Text := []
  err : Text := []
  session : Session
  stays : Bool := true

/-- Carries an instruction out. -/
def perform (files : Files) (s : Session) : Instruction → Response
  | .run =>
    let (outcome, s) := s.run
    { out := printOutcome s.bench.source outcome, session := s }
  | .clear => { session := s.clear }
  | .language tag =>
    match Language.read tag with
    | .ok l => { session := s.switchLanguage l }
    | .error e => { err := line e.message, session := s }
  | .edit lines => { session := s.edit (Text.joined "\n" lines) }
  | .load path =>
    match files.text path with
    | .ok t => { session := s.edit t }
    | .error fault =>
      { err := line ("cannot read " ++ path ++ ": " ++ fault.message), session := s }
  | .indent offset =>
    match Text.count? offset with
    | some n =>
      let s := s.insertIndent n n
      { out := line ("cursor at " ++ Text.ofNat s.bench.caret), session := s }
    | none => { err := line ("invalid offset: " ++ offset), session := s }
  | .showSource => { out := numbered 1 (Text.lines s.bench.source), session := s }
  | .highlight => { out := line s.markup, session := s }
  | .help => { err := line helpText, session := s }
  | .quit => { session := s, stays := false }

/-- What a line asks for: nothing, an instruction, or why it is neither. -/
def readLine (input : Text) : Except Text (Option Instruction) :=
  let input := Text.trim input
  match words? input with
  | none => .error "unbalanced quotes"
  | some [] => .ok none
  | some words =>
    match Instruction.ofWords? words with
    | some instruction => .ok (some instruction)
    | none => .error ("unknown command: " ++ input ++ " (try 'help')")

/-- Answers a line. -/
def respond (files : Files) (s : Session) (input : Text) : Response :=
  match readLine input with
  | .error complaint => { err := line complaint, session := s }
  | .ok none => { session := s }
  | .ok (some instruction) => perform files s instruction

/-- What is said before the first line. -/
def greeting (s : Session) : Text :=
  line ("fake-compiler (" ++ s.bench.language.displayName ++ "). Type 'help' for commands.")

/-- What is said before every line. -/
def prompt (s : Session) : Text := s.bench.language.tag ++ "> "

/-- What a dialogue printed, the session at its end, and the fault that ended it, if one did. -/
structure Dialogue where
  out : Text
  err : Text
  session : Session
  fault : Option Error

/-- Answers every line of the input, until the user leaves. -/
def converse (files : Files) (s : Session) : Bytes → Dialogue
  | [] => ⟨[], prompt s, s, none⟩
  | b :: input =>
    match Text.decode (takeLine (b :: input)).1 with
    | none => ⟨[], prompt s, s, some (.stream .notUtf8)⟩
    | some read =>
      let r := respond files s read
      if r.stays then
        let rest := converse files r.session (takeLine (b :: input)).2
        ⟨r.out ++ rest.out, prompt s ++ r.err ++ rest.err, rest.session, rest.fault⟩
      else ⟨r.out, prompt s ++ r.err, r.session, none⟩
termination_by input => input.length
decreasing_by
  have := length_takeLine_cons b input
  simp only [List.length_cons]
  omega

end Console
end Workbench
