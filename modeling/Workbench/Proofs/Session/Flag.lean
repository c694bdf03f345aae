import Workbench.Proofs.Session.Operation

/-!
# Proofs/Session/Flag — the run flag tells whether a run waits

The bench has a flag for a run under way, the scheduler a queue of the runs that wait, and each
operation changes them on its own.  Between operations they agree (`Flagged`): either the session is
idle, or one run waits and the output is empty.  What a request and a firing do in either state is
an equation, so an operation is a step between the two (`Flagged.perform`), and a run is always over
with an outcome when it returns (`Flagged.exists_run`).
-/

namespace Workbench.Session

variable {s : Session} {task : Task Document}

/-- No run is under way, and none waits. -/
structure Idle (s : Session) : Prop where
  notRunning : s.bench.running = false
  noneWaits : s.scheduler.queue = []

/-- One run waits, and nothing is left of the output of the last one. -/
structure Waits (s : Session) (task : Task Document) : Prop where
  running : s.bench.running = true
  waits : s.scheduler.queue = [task]
  quiet : s.bench.log = []

/-- The run flag is set exactly if a run waits, which is then the only one. -/
def Flagged (s : Session) : Prop := s.Idle ∨ ∃ task, s.Waits task

theorem Flagged.new (settings : Settings) (refusals : Refusals) :
    (Session.new settings { refusals }).Flagged :=
  .inl ⟨rfl, rfl⟩

/-! ## Requests -/

/-- The task of a run that is requested now. -/
def nextTask (s : Session) : Task Document :=
  ⟨s.scheduler.issued + 1, s.settings.runDelay, s.bench.snapshot⟩

/-- A session in which a run is under way that waits no longer. -/
def begun (s : Session) : Session :=
  { s with
    bench := s.bench.beginRun
    scheduler := { s.scheduler with issued := s.scheduler.issued + 1 } }

/-- An idle session takes a request. -/
theorem Idle.requestRun_eq (h : s.Idle) : s.requestRun =
    (some s.nextTask.id, { s.begun with
      scheduler := { s.begun.scheduler with queue := [s.nextTask] } }) := by
  simp [requestRun, h.notRunning, Scheduler.schedule, h.noneWaits, begun, nextTask, Bench.snapshot,
    Bench.beginRun]

theorem Idle.waits_requestRun (h : s.Idle) : s.requestRun.2.Waits s.nextTask := by
  rw [h.requestRun_eq]
  exact ⟨rfl, rfl, rfl⟩

/-- While a run waits, a request changes nothing. -/
theorem Waits.requestRun_eq (h : s.Waits task) : s.requestRun = (none, s) := by
  rw [requestRun, if_pos h.running]

/-- Behind a request a run waits, be it the one requested or one from before. -/
theorem Flagged.exists_waits_requestRun (h : s.Flagged) : ∃ task, s.requestRun.2.Waits task := by
  rcases h with hidle | ⟨task, hwaits⟩
  · exact ⟨_, hidle.waits_requestRun⟩
  · rw [hwaits.requestRun_eq]
    exact ⟨task, hwaits⟩

/-! ## Firing -/

/-- A session whose queue is emptied. -/
def released (s : Session) : Session := { s with scheduler := { s.scheduler with queue := [] } }

/-- An idle session has nothing to fire. -/
theorem Idle.runPending_eq (h : s.Idle) : s.runPending = (none, s) := by
  rw [runPending, h.noneWaits]
  rfl

theorem Waits.runPending_eq_fireNext (h : s.Waits task) : s.runPending = s.fireNext := by
  rw [runPending, h.waits]
  rfl

/-- A cancelled run is over without any effect. -/
theorem Waits.runPending_of_cancelled (h : s.Waits task)
    (hcancelled : s.scheduler.isCancelled task.id = true) :
    s.runPending = (some .cancelled, { s.released with bench := s.bench.abortRun }) := by
  have hnext : s.scheduler.next = (some (.cancelled task.job), s.released.scheduler) := by
    rw [Scheduler.next, h.waits]
    dsimp only
    rw [if_pos hcancelled]
    rfl
  rw [h.runPending_eq_fireNext, fireNext, hnext]
  rfl

/-- A run that was not cancelled is carried out. -/
theorem Waits.runPending_of_due (h : s.Waits task)
    (hdue : s.scheduler.isCancelled task.id = false) :
    s.runPending = (some (s.released.execute task.job).1, (s.released.execute task.job).2) := by
  have hnext : s.scheduler.next = (some (.due task.job), s.released.scheduler) := by
    rw [Scheduler.next, h.waits]
    dsimp only
    rw [if_neg (Bool.eq_false_iff.mp hdue)]
    rfl
  rw [h.runPending_eq_fireNext, fireNext, hnext]
  rfl

/-- A document is carried out to a log, or is shown; the run is over in any case. -/
theorem execute_cases (s : Session) (document : Document) :
    (∃ log preview, s.execute document =
      (.log log, { s with bench := s.bench.finishRun log, preview })) ∨
    (∃ id preview, s.preview.render document.text = (.ok id, preview) ∧ s.execute document =
      (.surface id, { s with bench := s.bench.finishRun [], preview })) := by
  unfold execute
  split
  · exact .inl ⟨_, s.preview, rfl⟩
  · split
    · next id preview hrender => exact .inr ⟨id, preview, hrender, rfl⟩
    · next preview _ => exact .inl ⟨_, preview, rfl⟩

/-- A document that is carried out leaves no run under way. -/
theorem idle_execute (hqueue : s.scheduler.queue = []) (document : Document) :
    (s.execute document).2.Idle := by
  rcases s.execute_cases document with ⟨log, preview, hexecute⟩ | ⟨id, preview, -, hexecute⟩
  · rw [hexecute]
    exact ⟨rfl, hqueue⟩
  · rw [hexecute]
    exact ⟨rfl, hqueue⟩

/-- **A run that waits is over** once it has fired. -/
theorem Waits.exists_runPending (h : s.Waits task) :
    (∃ outcome, s.runPending.1 = some outcome) ∧ s.runPending.2.Idle := by
  cases hcancelled : s.scheduler.isCancelled task.id with
  | true =>
    rw [h.runPending_of_cancelled hcancelled]
    exact ⟨⟨_, rfl⟩, rfl, rfl⟩
  | false =>
    rw [h.runPending_of_due hcancelled]
    exact ⟨⟨_, rfl⟩, idle_execute rfl task.job⟩

theorem Flagged.idle_runPending (h : s.Flagged) : s.runPending.2.Idle := by
  rcases h with hidle | ⟨task, hwaits⟩
  · rwa [hidle.runPending_eq]
  · exact hwaits.exists_runPending.2

/-- **A run has an outcome**, and is over. -/
theorem Flagged.exists_run (h : s.Flagged) :
    (∃ outcome, s.run.1 = some outcome) ∧ s.run.2.Idle := by
  obtain ⟨task, hwaits⟩ := h.exists_waits_requestRun
  exact hwaits.exists_runPending

/-! ## The other operations -/

theorem Idle.dropPending_eq (h : s.Idle) : s.dropPending = s := by
  have hqueue : { s.scheduler with queue := [] } = s.scheduler := by rw [← h.noneWaits]
  have hscheduler : s.scheduler.cancelAll = (0, s.scheduler) := by
    rw [Scheduler.cancelAll, Scheduler.pending, h.noneWaits, ← hqueue]
    rfl
  rw [dropPending, hscheduler]
  rfl

theorem Waits.dropPending_eq (h : s.Waits task) : s.dropPending =
    { s with bench := s.bench.abortRun, scheduler := s.scheduler.cancelAll.2 } := by
  have hdropped : s.scheduler.cancelAll.1 > 0 := by
    rw [Scheduler.cancelAll, Scheduler.pending, h.waits]
    exact Nat.zero_lt_one
  rw [dropPending]
  dsimp only
  rw [if_pos hdropped]

theorem dropPending_scheduler (s : Session) :
    s.dropPending.scheduler = s.scheduler.cancelAll.2 := by
  rw [dropPending]
  dsimp only
  split <;> rfl

/-- No run waits or is under way once those that wait are dropped. -/
theorem Flagged.idle_dropPending (h : s.Flagged) : s.dropPending.Idle := by
  rcases h with hidle | ⟨task, hwaits⟩
  · rwa [hidle.dropPending_eq]
  · rw [hwaits.dropPending_eq]
    exact ⟨rfl, rfl⟩

theorem Flagged.idle_clear (h : s.Flagged) : s.clear.Idle :=
  ⟨h.idle_dropPending.notRunning, h.idle_dropPending.noneWaits⟩

theorem Flagged.idle_switchLanguage (h : s.Flagged) (l : Language) : (s.switchLanguage l).Idle :=
  ⟨h.idle_dropPending.notRunning, h.idle_dropPending.noneWaits⟩

/-- What changes neither the flag nor the queue nor the output keeps the flag right. -/
theorem Flagged.congr {s' : Session} (h : s.Flagged) (hrunning : s'.bench.running = s.bench.running)
    (hqueue : s'.scheduler.queue = s.scheduler.queue) (hlog : s'.bench.log = s.bench.log) :
    s'.Flagged := by
  rcases h with ⟨hidle, hnone⟩ | ⟨task, hflag, hwaits, hquiet⟩
  · exact .inl ⟨hrunning.trans hidle, hqueue.trans hnone⟩
  · exact .inr ⟨task, hrunning.trans hflag, hqueue.trans hwaits, hlog.trans hquiet⟩

/-- **Every operation** keeps the flag right. -/
theorem Flagged.perform (h : s.Flagged) (operation : Operation) : (s.perform operation).Flagged := by
  cases operation with
  | run => exact .inl h.exists_run.2
  | requestRun => exact .inr h.exists_waits_requestRun
  | runPending => exact .inl h.idle_runPending
  | cancel id => exact h.congr rfl rfl rfl
  | clear => exact .inl h.idle_clear
  | switchLanguage l => exact .inl (h.idle_switchLanguage l)
  | edit text => exact h.congr rfl rfl rfl
  | insertIndent start stop => exact h.congr rfl rfl rfl

theorem Flagged.performAll (h : s.Flagged) (operations : List Operation) :
    (s.performAll operations).Flagged := by
  induction operations generalizing s with
  | nil => exact h
  | cons operation operations ih => exact ih (h.perform operation)

/-- **The run flag**: whatever happens to a session, at most one run waits; the flag is set exactly
if one does, and then the output is empty and a request is refused.  A run always has an outcome,
and leaves no flag set and nothing in the queue. -/
theorem run_flag (settings : Settings) (refusals : Refusals) (operations : List Operation) :
    let s := (Session.new settings { refusals }).performAll operations
    s.scheduler.pending ≤ 1 ∧
      (s.bench.running = true ↔ s.scheduler.pending = 1) ∧
      (s.bench.running = true → s.bench.log = []) ∧
      (s.requestRun.1 = none ↔ s.scheduler.pending ≠ 0) ∧
      ∃ outcome, s.run.1 = some outcome ∧ s.run.2.bench.running = false ∧
        s.run.2.scheduler.pending = 0 := by
  intro s
  have hflagged : s.Flagged := (Flagged.new settings refusals).performAll operations
  obtain ⟨⟨outcome, houtcome⟩, hidle⟩ := hflagged.exists_run
  have hpending : s.run.2.scheduler.pending = 0 := List.length_eq_zero_iff.mpr hidle.noneWaits
  have hrun : ∃ outcome, s.run.1 = some outcome ∧ s.run.2.bench.running = false ∧
      s.run.2.scheduler.pending = 0 := ⟨outcome, houtcome, hidle.notRunning, hpending⟩
  rcases hflagged with hidle | ⟨task, hwaits⟩
  · have hnone : s.scheduler.pending = 0 := List.length_eq_zero_iff.mpr hidle.noneWaits
    refine ⟨by omega, ?_, ?_, ?_, hrun⟩
    · simp [hidle.notRunning, hnone]
    · simp [hidle.notRunning]
    · simp [hidle.requestRun_eq, hnone]
  · have hone : s.scheduler.pending = 1 := congrArg List.length hwaits.waits
    refine ⟨by omega, ?_, fun _ => hwaits.quiet, ?_, hrun⟩
    · simp [hwaits.running, hone]
    · simp [hwaits.requestRun_eq, hone]

end Workbench.Session
