import Workbench.Proofs.Session.Coherence
import Workbench.Proofs.Session.Reachable

/-!
# Proofs/Session/Snapshot — a run that waits does not see what happens meanwhile

A request takes the source down as it is, and the run fires on that.  Between the two the source is
edited, more runs are asked for and old handles are cancelled (`Meanwhile`).  None of it reaches the
run but the cancellation of its own handle, and the run leaves alone what the edits made of the
source, since what a document comes to depends on the surfaces only (`exists_execute_eq`).  So the
run ends as if it had fired at once (`run_of_snapshot`).
-/

namespace Workbench.Session

variable {s s' : Session} {settings : Settings} {refusals : Refusals}

/-! ## What happens while a run waits -/

/-- What is done between the request of a run and its firing. -/
inductive Meanwhile
  | edit (text : Text)
  | insertIndent (start stop : Nat)
  /-- The markup of the source is looked at. -/
  | highlight
  | requestRun
  | cancel (id : Nat)
  deriving DecidableEq, Repr

/-- What a session becomes meanwhile. -/
def meanwhile (s : Session) : Meanwhile → Session
  | .edit text => s.edit text
  | .insertIndent start stop => s.insertIndent start stop
  | .highlight => s
  | .requestRun => s.requestRun.2
  | .cancel id => s.cancel id

/-- What happens meanwhile, one after the other. -/
def meanwhileAll (s : Session) (window : List Meanwhile) : Session := window.foldl meanwhile s

/-- What the source becomes meanwhile. -/
def editedBy (indent : Text) (b : Bench) : Meanwhile → Bench
  | .edit text => b.edit text
  | .insertIndent start stop => b.insertIndent start stop indent
  | .highlight | .requestRun | .cancel _ => b

/-- The bench with nothing but the edits. -/
def edited (s : Session) (window : List Meanwhile) : Bench :=
  window.foldl (editedBy s.settings.indent) s.bench

/-- **What has become of a session** since a run was requested in `s`: only edits of the source and
marks of handles are seen of what happened meanwhile. -/
structure Stirred (s : Session) (window : List Meanwhile) (s' : Session) : Prop where
  settings : s'.settings = s.settings
  bench : s'.bench = (s.edited window).beginRun
  queue : s'.scheduler.queue = [s.nextTask]
  isCancelled : ∀ id, s'.scheduler.isCancelled id = true ↔
    .cancel id ∈ window ∨ s.scheduler.isCancelled id = true
  preview : s'.preview = s.preview

variable {window : List Meanwhile}

theorem Idle.stirred (h : s.Idle) : Stirred s [] s.requestRun.2 := by
  rw [h.requestRun_eq]
  exact ⟨rfl, rfl, rfl, fun id => (or_iff_right List.not_mem_nil).symm, rfl⟩

namespace Stirred

theorem waits (h : Stirred s window s') : s'.Waits s.nextTask := by
  refine ⟨?_, h.queue, ?_⟩
  · rw [h.bench]
    rfl
  · rw [h.bench]
    rfl

/-- What changes the source alone. -/
theorem edit (h : Stirred s window s') {m : Meanwhile} {b : Bench} (hm : ∀ id, m ≠ .cancel id)
    (hb : b = (editedBy s.settings.indent (s.edited window) m).beginRun) :
    Stirred s (window ++ [m]) { s' with bench := b } where
  settings := h.settings
  bench := by
    rw [edited, List.foldl_append]
    exact hb
  queue := h.queue
  isCancelled id := by
    simpa [(hm id).symm] using h.isCancelled id
  preview := h.preview

theorem cancel (h : Stirred s window s') (id : Nat) :
    Stirred s (window ++ [.cancel id]) (s'.cancel id) where
  settings := h.settings
  bench := by
    rw [edited, List.foldl_append]
    exact h.bench
  queue := h.queue
  isCancelled other := by
    rw [Session.cancel, Scheduler.isCancelled_cancel, Bool.or_eq_true, decide_eq_true_eq,
      h.isCancelled other, List.mem_append, List.mem_singleton, Meanwhile.cancel.injEq]
    tauto
  preview := h.preview

/-- **What happens while a run waits** is an edit or a mark, or nothing. -/
theorem meanwhile (h : Stirred s window s') (m : Meanwhile) :
    Stirred s (window ++ [m]) (s'.meanwhile m) := by
  cases m with
  | edit text => exact h.edit nofun (by rw [h.bench]; rfl)
  | insertIndent start stop => exact h.edit nofun (by rw [h.bench, h.settings]; rfl)
  | highlight => exact h.edit nofun h.bench
  | requestRun =>
    -- a run is under way, so the request is refused
    rw [Session.meanwhile, h.waits.requestRun_eq]
    exact h.edit nofun h.bench
  | cancel id => exact h.cancel id

end Stirred

theorem Idle.stirred_meanwhileAll (h : s.Idle) (window : List Meanwhile) :
    Stirred s window (s.requestRun.2.meanwhileAll window) := by
  induction window using List.reverseRecOn with
  | nil => exact h.stirred
  | append_singleton window m ih =>
    rw [meanwhileAll, List.foldl_append]
    exact ih.meanwhile m

/-! ## What a document comes to -/

/-- A document comes to what the surfaces allow, and bears on the bench by its log only. -/
theorem exists_execute_eq (p : Preview) (document : Document) :
    ∃ outcome log q, ∀ s : Session, s.preview = p → s.execute document =
      (outcome, { s with bench := s.bench.finishRun log, preview := q }) := by
  cases hdialect : Dialect.of? document.language with
  | some d =>
    refine ⟨.log (d.extract document.text).log, (d.extract document.text).log, p, ?_⟩
    rintro s rfl
    rw [execute, hdialect]
  | none =>
    rcases hrender : p.render document.text with ⟨e | id, q⟩
    · refine ⟨.log [.error ("Error: " ++ e.message)], [.error ("Error: " ++ e.message)], q, ?_⟩
      rintro s rfl
      rw [execute, hdialect]
      dsimp only
      rw [hrender]
    · refine ⟨.surface id, [], q, ?_⟩
      rintro s rfl
      rw [execute, hdialect]
      dsimp only
      rw [hrender]

theorem execute_fst_of_ne (s : Session) {document : Document} (h : document.language ≠ .html) :
    (s.execute document).1 = .log (trace document.language document.text) := by
  obtain ⟨language, text⟩ := document
  cases language with
  | python => rfl
  | java => rfl
  | html => exact absurd rfl h

theorem execute_of_render {document : Document} {id : SurfaceId} {q : Preview}
    (h : document.language = .html) (hrender : s.preview.render document.text = (.ok id, q)) :
    s.execute document = (.surface id, { s with bench := s.bench.finishRun [], preview := q }) := by
  rw [execute, h]
  dsimp only [Dialect.of?]
  rw [hrender]

/-! ## Firing behind what happened -/

/-- The run that is requested in a session, fired behind what happens meanwhile. -/
def firedBehind (s : Session) (window : List Meanwhile) : Option Outcome × Session :=
  (s.requestRun.2.meanwhileAll window).runPending

/-- The run of a handle that was cancelled comes to nothing. -/
theorem AtRest.firedBehind_of_mem (h : s.AtRest) (hmem : .cancel s.nextTask.id ∈ window) :
    (s.firedBehind window).1 = some .cancelled ∧
      (s.firedBehind window).2.bench = (s.edited window).finishRun [] ∧
      (s.firedBehind window).2.preview = s.preview := by
  have hstirred := h.stirred_meanwhileAll window
  have hcancelled := (hstirred.isCancelled s.nextTask.id).mpr (.inl hmem)
  rw [firedBehind, hstirred.waits.runPending_of_cancelled hcancelled]
  refine ⟨rfl, ?_, hstirred.preview⟩
  dsimp only
  rw [hstirred.bench]
  rfl

/-- **The run of a handle that was not cancelled** comes to the same whatever happened. -/
theorem AtRest.exists_firedBehind (h : s.AtRest) :
    ∃ outcome log q, ∀ window, .cancel s.nextTask.id ∉ window →
      (s.firedBehind window).1 = some outcome ∧
        (s.firedBehind window).2.bench = (s.edited window).finishRun log ∧
        (s.firedBehind window).2.preview = q := by
  obtain ⟨outcome, log, q, hexecute⟩ := exists_execute_eq s.preview s.bench.snapshot
  refine ⟨outcome, log, q, fun window hnotMem => ?_⟩
  have hstirred := h.stirred_meanwhileAll window
  have hunmarked : s.scheduler.isCancelled s.nextTask.id = false :=
    decide_eq_false fun hmem => absurd (h.issued _ hmem) (Nat.not_succ_le_self _)
  have hdue : (s.requestRun.2.meanwhileAll window).scheduler.isCancelled s.nextTask.id = false := by
    rw [Bool.eq_false_iff, ne_eq, hstirred.isCancelled, hunmarked]
    simpa using hnotMem
  have hfired := hexecute (s.requestRun.2.meanwhileAll window).released hstirred.preview
  rw [firedBehind, hstirred.waits.runPending_of_due hdue]
  dsimp only [nextTask]
  rw [hfired]
  refine ⟨rfl, ?_, rfl⟩
  dsimp only [released]
  rw [hstirred.bench]
  rfl

/-- **A run on its snapshot**: what happens before it fires bears on the source, and on the run no
more than by the cancellation of its handle. -/
structure OnSnapshot (s : Session) (id : Nat) (window : List Meanwhile) : Prop where
  /-- A further request is refused. -/
  refused : (s.requestRun.2.meanwhileAll window).requestRun =
    (none, s.requestRun.2.meanwhileAll window)
  /-- The source with its caret is what the edits made of it. -/
  bench : (s.firedBehind window).2.bench =
    (s.edited window).finishRun (s.firedBehind window).2.bench.log
  /-- The run ends as if it had fired at once, -/
  same : .cancel id ∉ window → (s.firedBehind window).1 = s.run.1 ∧
    (s.firedBehind window).2.bench.log = s.run.2.bench.log ∧
    (s.firedBehind window).2.preview = s.run.2.preview
  /-- or without any effect, on the host either. -/
  cancelled : .cancel id ∈ window → (s.firedBehind window).1 = some .cancelled ∧
    (s.firedBehind window).2.bench.log = [] ∧ (s.firedBehind window).2.preview = s.preview

theorem AtRest.onSnapshot (h : s.AtRest) (window : List Meanwhile) :
    OnSnapshot s s.nextTask.id window := by
  obtain ⟨outcome, log, q, hdue⟩ := h.exists_firedBehind
  -- a run that fires at once is one behind which nothing happened
  obtain ⟨hrun, hbench, hpreview⟩ := hdue [] List.not_mem_nil
  refine ⟨(h.stirred_meanwhileAll window).waits.requestRun_eq, ?_, fun hnotMem => ?_,
    fun hmem => ?_⟩
  · by_cases hmem : .cancel s.nextTask.id ∈ window
    · rw [(h.firedBehind_of_mem hmem).2.1]
      rfl
    · rw [(hdue window hmem).2.1]
      rfl
  · obtain ⟨hrun', hbench', hpreview'⟩ := hdue window hnotMem
    refine ⟨hrun'.trans hrun.symm, ?_, hpreview'.trans hpreview.symm⟩
    exact (congrArg Bench.log hbench').trans (congrArg Bench.log hbench).symm
  · obtain ⟨hrun', hbench', hpreview'⟩ := h.firedBehind_of_mem hmem
    exact ⟨hrun', congrArg Bench.log hbench', hpreview'⟩

/-- **A run uses its snapshot**: where no run waits, a request is taken, and from there on the run
is on its snapshot (`OnSnapshot`), whatever happens before it fires.  The source of a textual
language is traced; one in markup is shown on a fresh surface, if the host accepts it. -/
theorem run_of_snapshot (hreachable : Reachable settings refusals s)
    (hpending : s.scheduler.pending = 0) :
    ∃ id, s.requestRun.1 = some id ∧ (∀ window, OnSnapshot s id window) ∧
      (s.bench.language ≠ .html →
        s.run.1 = some (.log (trace s.bench.language s.bench.source)) ∧
        s.run.2.bench.log = trace s.bench.language s.bench.source ∧
        s.run.2.preview = s.preview) ∧
      (s.bench.language = .html → s.preview.Accepts → ∃ surface,
        s.run.1 = some (.surface surface) ∧ s.run.2.bench.log = [] ∧
        surface ∉ s.preview.host.ids ∧ surface ∉ s.preview.host.tornDown ∧
        s.run.2.preview.current = some surface ∧
        s.run.2.preview.host.live.lookup surface = some s.bench.source) := by
  have hrest : s.AtRest := hreachable.atRest hpending
  refine ⟨s.nextTask.id, congrArg Prod.fst hrest.requestRun_eq, hrest.onSnapshot, ?_, ?_⟩
  · intro hlanguage
    have hne : s.bench.snapshot.language ≠ .html := hlanguage
    rw [hrest.run_eq, s.begun.execute_of_ne hne, s.begun.execute_fst_of_ne hne]
    exact ⟨rfl, rfl, rfl⟩
  · intro hlanguage haccepts
    obtain ⟨surface, q, hrender, hlive, htornDown⟩ :=
      haccepts.exists_render hrest.kept hreachable.past s.bench.source
    obtain ⟨hcurrent, hshown⟩ := hrest.kept.shown hrender
    have hexecute : s.begun.execute s.bench.snapshot = _ := execute_of_render hlanguage hrender
    rw [hrest.run_eq, hexecute]
    exact ⟨surface, rfl, rfl, hlive, htornDown, hcurrent, hshown⟩

/-- A second run, the handle of the first one cancelled behind it. -/
theorem run_of_snapshot_again :
    let s := (Session.new { language := .html } { refusals := .none }).performAll
      [.edit "<p>a</p>", .run, .cancel 1]
    Reachable { language := .html } .none s ∧ s.scheduler.pending = 0 ∧
      s.bench.language = .html ∧ s.preview.Accepts ∧
      ∃ id, s.requestRun.1 = some id ∧ (∀ window, OnSnapshot s id window) ∧
        ∃ surface, s.run.1 = some (.surface surface) ∧ surface ∉ s.preview.host.ids ∧
          s.run.2.preview.host.live.lookup surface = some s.bench.source := by
  intro s
  have hreachable : Reachable { language := .html } .none s :=
    .perform (.cancel 1) (.perform .run (.perform (.edit "<p>a</p>") .new trivial) trivial)
      (Nat.le_refl 1)
  have hpending : s.scheduler.pending = 0 := by decide
  have hlanguage : s.bench.language = .html := by decide
  have haccepts : s.preview.Accepts := ⟨fun _ => rfl, rfl⟩
  obtain ⟨id, hid, honSnapshot, -, hmarkup⟩ := run_of_snapshot hreachable hpending
  obtain ⟨surface, houtcome, -, hfresh, -, -, hshown⟩ := hmarkup hlanguage haccepts
  exact ⟨hreachable, hpending, hlanguage, haccepts, id, hid, honSnapshot, surface, houtcome, hfresh,
    hshown⟩

end Workbench.Session
