import Workbench.Language.Sample
import Workbench.Log
import Workbench.Text.Offset

/-!
# Session/Bench — what lies on the workbench, and how it changes

The bench is all that a user sees: the source with its language and caret, the output, and whether
a run is under way.  Every change is a function from one bench to the next; whatever reaches
beyond the bench (waiting, surfaces) is left to the session.
-/

namespace Workbench

/-- The source at one moment. -/
structure Document where
  language : Language
  text : Text
  deriving DecidableEq, Repr

/-- What a user sees. -/
structure Bench where
  language : Language
  source : Text
  log : Log
  running : Bool
  /-- The place of the caret, in bytes. -/
  caret : Nat
  deriving DecidableEq, Repr

namespace Bench

/-- A bench with the sample of a language. -/
def new (l : Language) : Bench := ⟨l, l.sample, [], false, 0⟩

/-- The source as it is now. -/
def snapshot (b : Bench) : Document := ⟨b.language, b.source⟩

/-- A run begins: the output of the last one goes. -/
def beginRun (b : Bench) : Bench := { b with log := [], running := true }

/-- A run ends with its output. -/
def finishRun (b : Bench) (log : Log) : Bench := { b with log, running := false }

/-- A run ends without any. -/
def abortRun (b : Bench) : Bench := { b with running := false }

/-- The output goes. -/
def clear (b : Bench) : Bench := { b with log := [] }

/-- The sample of another language takes the place of everything but a run under way. -/
def switchLanguage (b : Bench) (l : Language) : Bench := { new l with running := b.running }

/-- Another source; the caret stays as near to its place as the source allows. -/
def edit (b : Bench) (text : Text) : Bench :=
  { b with source := text, caret := Text.floorBoundary text b.caret }

/-- The indent takes the place of what stands from `start` up to `stop`, and the caret goes behind
it.  Offsets are moved back to the start of a character, and `stop` is not before `start`. -/
def insertIndent (b : Bench) (start stop : Nat) (indent : Text) : Bench :=
  let before := (Text.splitBytes b.source start).1
  let behind := (Text.splitBytes b.source (max start stop)).2
  { b with source := before ++ indent ++ behind, caret := Text.bytes before + Text.bytes indent }

end Bench
end Workbench
