import Workbench.Proofs.Session.Flag
import Workbench.Proofs.Session.Handle

/-!
# Proofs/Session/Quiet — emptying the output and changing the language bring a session to rest

Both drop the run that waits and take the surface away before they change the bench.  Whatever was
under way, and whatever the host refuses then, nothing more comes of it (`Quiesced`): there is
nothing to fire and nothing left to take away, and the next run may be requested.
-/

namespace Workbench.Session

variable {s s' : Session}

/-- **A session at quiet**, with nothing left of what was under way or shown in `s`. -/
structure Quiesced (s s' : Session) : Prop where
  log : s'.bench.log = []
  running : s'.bench.running = false
  queue : s'.scheduler.queue = []
  /-- The handles of the runs that waited are cancelled. -/
  cancelled : ∀ task ∈ s.scheduler.queue, s'.scheduler.isCancelled task.id = true
  current : s'.preview.current = none
  runPending : s'.runPending = (none, s')
  /-- Neither the session nor its host is changed by emptying the output again. -/
  clear : s'.clear = s'
  requestRun : ∃ id, s'.requestRun.1 = some id

/-! ## What is dropped -/

/-- Only the end of a run is seen of the runs that are dropped. -/
theorem Flagged.dropPending_bench (h : s.Flagged) : s.dropPending.bench = s.bench.abortRun := by
  rcases h with hidle | ⟨task, hwaits⟩
  · rw [hidle.dropPending_eq, Bench.abortRun, ← hidle.notRunning]
  · rw [hwaits.dropPending_eq]

/-- Dropping what waits marks the handle of every run that waited. -/
theorem isCancelled_dropPending {task : Task Document} (htask : task ∈ s.scheduler.queue) :
    s.dropPending.scheduler.isCancelled task.id = true := by
  rw [dropPending_scheduler, Scheduler.isCancelled_cancelAll,
    decide_eq_true (List.mem_map_of_mem htask), Bool.true_or]

/-! ## A session at quiet -/

/-- With no surface, no run and no output there is nothing to empty. -/
theorem Idle.clear_eq (h : s.Idle) (hlog : s.bench.log = []) (hcurrent : s.preview.current = none) :
    s.clear = s := by
  have hbench : s.bench.clear = s.bench := by rw [Bench.clear, ← hlog]
  have hdiscard : s.discardSurface = s := by rw [discardSurface, Preview.discard_of_none hcurrent]
  rw [clear, h.dropPending_eq, hdiscard, hbench]

/-- An idle session with an empty log and no surface is quiet, if what waited is cancelled. -/
theorem Quiesced.of_idle (hidle : s'.Idle) (hlog : s'.bench.log = [])
    (hcurrent : s'.preview.current = none)
    (hcancelled : ∀ task ∈ s.scheduler.queue, s'.scheduler.isCancelled task.id = true) :
    Quiesced s s' where
  log := hlog
  running := hidle.notRunning
  queue := hidle.noneWaits
  cancelled := hcancelled
  current := hcurrent
  runPending := hidle.runPending_eq
  clear := hidle.clear_eq hlog hcurrent
  requestRun := ⟨_, congrArg Prod.fst hidle.requestRun_eq⟩

theorem Flagged.quiesced_clear (h : s.Flagged) : Quiesced s s.clear :=
  .of_idle h.idle_clear rfl (Preview.discard_current _) fun _ => isCancelled_dropPending

theorem Flagged.quiesced_switchLanguage (h : s.Flagged) (l : Language) :
    Quiesced s (s.switchLanguage l) :=
  .of_idle (h.idle_switchLanguage l) rfl (Preview.discard_current _) fun _ =>
    isCancelled_dropPending

/-- Clearing leaves language, source and caret as they were. -/
theorem Flagged.clear_bench (h : s.Flagged) :
    s.clear.bench = { s.bench with log := [], running := false } := by
  show s.dropPending.bench.clear = _
  rw [h.dropPending_bench]
  rfl

theorem Flagged.switchLanguage_bench (h : s.Flagged) (l : Language) :
    (s.switchLanguage l).bench = .new l := by
  show s.dropPending.bench.switchLanguage l = _
  rw [h.dropPending_bench]
  rfl

/-- **Emptying the output and changing the language bring a session to quiet**, whatever happened to
it and whatever the host refuses.  The one keeps the source with its language and caret, the other
begins anew on the sample. -/
theorem quiesced_performAll (settings : Settings) (refusals : Refusals)
    (operations : List Operation) :
    let s := (Session.new settings { refusals }).performAll operations
    (Quiesced s s.clear ∧ s.clear.bench = { s.bench with log := [], running := false }) ∧
      ∀ l, Quiesced s (s.switchLanguage l) ∧ (s.switchLanguage l).bench = .new l := by
  intro s
  have hflagged : s.Flagged := (Flagged.new settings refusals).performAll operations
  exact ⟨⟨hflagged.quiesced_clear, hflagged.clear_bench⟩,
    fun l => ⟨hflagged.quiesced_switchLanguage l, hflagged.switchLanguage_bench l⟩⟩

/-- A surface that the host keeps is live and nobody's, and the host is not asked again. -/
example :
    let refusals : Refusals := ⟨fun _ => false, fun _ => true⟩
    let s := ((Session.new { language := .html } { refusals }).performAll
      [.edit "<p>a</p>", .run, .requestRun]).clear
    s.preview.host.ids = [1] ∧ s.preview.current = none ∧ s.scheduler.isCancelled 2 ∧
      s.preview.host.teardownCalls = 1 ∧ s.clear.preview.host.teardownCalls = 1 := by
  decide

end Workbench.Session
