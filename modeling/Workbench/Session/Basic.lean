import Workbench.Highlight.Markup
import Workbench.Session.Bench
import Workbench.Session.Scheduler
import Workbench.Settings.Basic
import Workbench.Surface.Preview
import Workbench.Trace.Dialect

/-!
# Session/Basic — a bench with its runs

A run is requested, waits, and is executed on the source as it was when it was requested.  Only one
run waits at a time: the bench says that one is under way, and further requests are refused until
it is over.
-/

namespace Workbench

/-- How a run ended. -/
inductive Outcome
  /-- With a log. -/
  | log (log : Log)
  /-- With a document on a surface. -/
  | surface (id : SurfaceId)
  /-- It was cancelled before it began. -/
  | cancelled
  deriving DecidableEq, Repr

/-- A bench, its settings, the runs that wait and the surface that is shown. -/
structure Session where
  settings : Settings
  bench : Bench
  scheduler : Scheduler Document
  preview : Preview

namespace Session

/-- A session at its start. -/
def new (settings : Settings) (host : Host) : Session where
  settings
  bench := .new settings.language
  scheduler := {}
  preview := { host }

/-- Requests a run of the source; the handle comes first, and none if a run is under way. -/
def requestRun (s : Session) : Option Nat × Session :=
  if s.bench.running then (none, s)
  else
    let bench := s.bench.beginRun
    let (id, scheduler) := s.scheduler.schedule s.settings.runDelay bench.snapshot
    (some id, { s with bench, scheduler })

/-- Runs a document.  A surface that the host refuses is reported in the log. -/
def execute (s : Session) (document : Document) : Outcome × Session :=
  match Dialect.of? document.language with
  | some d =>
    let log := (d.extract document.text).log
    (.log log, { s with bench := s.bench.finishRun log })
  | none =>
    match s.preview.render document.text with
    | (.ok id, preview) =>
      (.surface id, { s with bench := s.bench.finishRun [], preview })
    | (.error e, preview) =>
      let log : Log := [.error ("Error: " ++ e.message)]
      (.log log, { s with bench := s.bench.finishRun log, preview })

/-- Takes the oldest run that waits, and runs it unless it was cancelled. -/
def fireNext (s : Session) : Option Outcome × Session :=
  match s.scheduler.next with
  | (none, _) => (none, s)
  | (some (.due document), scheduler) =>
    let (outcome, s) := { s with scheduler }.execute document
    (some outcome, s)
  | (some (.cancelled _), scheduler) =>
    (some .cancelled, { s with scheduler, bench := s.bench.abortRun })

/-- Fires every run that waits; the outcome is that of the last one. -/
def runPending (s : Session) : Option Outcome × Session :=
  s.scheduler.queue.foldl (fun (_, s) _ => s.fireNext) (none, s)

/-- Requests a run and fires it. -/
def run (s : Session) : Option Outcome × Session := s.requestRun.2.runPending

/-- Cancels the run of a handle. -/
def cancel (s : Session) (id : Nat) : Session := { s with scheduler := s.scheduler.cancel id }

/-- Drops the runs that wait for a source that is about to go. -/
def dropPending (s : Session) : Session :=
  let (dropped, scheduler) := s.scheduler.cancelAll
  let s := { s with scheduler }
  if dropped > 0 then { s with bench := s.bench.abortRun } else s

/-- Takes the surface away.  A refusal of the host changes nothing about that. -/
def discardSurface (s : Session) : Session := { s with preview := s.preview.discard.2 }

/-- Empties the output. -/
def clear (s : Session) : Session :=
  let s := s.dropPending.discardSurface
  { s with bench := s.bench.clear }

/-- Changes to the sample of a language. -/
def switchLanguage (s : Session) (l : Language) : Session :=
  let s := s.dropPending.discardSurface
  { s with bench := s.bench.switchLanguage l }

/-- Changes the source. -/
def edit (s : Session) (text : Text) : Session := { s with bench := s.bench.edit text }

/-- Puts the indent of the settings in the place of a range of the source. -/
def insertIndent (s : Session) (start stop : Nat) : Session :=
  { s with bench := s.bench.insertIndent start stop s.settings.indent }

/-- The markup of the source. -/
def markup (s : Session) : Text := Highlight.markup s.bench.language s.bench.source

end Session
end Workbench
