import Workbench.Proofs.Session.Rest

/-!
# Proofs/Session/Coherence — queue, surface and output belong together

A run fires on the document that was requested, and what it leaves behind (a surface or an output)
stays until something takes it away, however the source is changed in the meantime.  So the state of
a session is to be read against its history, the documents of the runs that fired (`firedAll`): what
is shown and what is printed come from the last of them (`Coherent`).  Every operation keeps that
(`Coherent.perform`), because a change of language drops the run that waits and the surface first.
-/

namespace Workbench

/-- The jobs that come out of the queue to be run, in order: those that were not cancelled. -/
def Scheduler.due {α : Type} (s : Scheduler α) : List α :=
  (s.queue.filter fun task => !s.isCancelled task.id).map (·.job)

/-- Where a render fails, no surface is current. -/
theorem Preview.current_of_render_error {p q : Preview} {document : Text} {e : Error}
    (h : p.render document = (.error e, q)) : q.current = none := by
  have hnone : p.discard.2.current = none := p.discard_current
  unfold render at h
  split at h
  · next hdiscard =>
    obtain ⟨-, rfl⟩ := Prod.mk.inj h
    rwa [hdiscard] at hnone
  · next hdiscard =>
    rw [hdiscard] at hnone
    split at h
    · obtain ⟨-, rfl⟩ := Prod.mk.inj h
      exact hnone
    · cases h

namespace Session

/-! ## Histories -/

/-- The documents of the runs that fire in an operation. -/
def fired (s : Session) : Operation → List Document
  | .run => s.requestRun.2.scheduler.due
  | .runPending => s.scheduler.due
  | .requestRun | .cancel _ | .clear | .switchLanguage _ | .edit _ | .insertIndent _ _ => []

/-- The documents of the runs that fire in operations, one after the other. -/
def firedAll (s : Session) : List Operation → List Document
  | [] => []
  | operation :: operations => s.fired operation ++ (s.perform operation).firedAll operations

/-- The state of a session in which the runs of `history` have fired. -/
structure Coherent (s : Session) (history : List Document) : Prop where
  /-- What waits is in the language of the source. -/
  queued : ∀ task ∈ s.scheduler.queue, task.job.language = s.bench.language
  /-- Markup is shown for markup only, and it is that of the last run. -/
  shown : ∀ id, s.preview.current = some id → s.bench.language = .html ∧
    ∃ d, history.getLast? = some d ∧ s.preview.host.live.lookup id = some d.text
  /-- Markup has no output but the report of a failure. -/
  reported : s.bench.language = .html →
    s.bench.log = [] ∨ ∃ e : Log.Entry, s.bench.log = [e] ∧ e.kind = .error
  /-- A textual language has the output of the last run, or none. -/
  printed : s.bench.language ≠ .html →
    s.bench.log = [] ∨ ∃ d, history.getLast? = some d ∧ s.bench.log = trace d.language d.text

variable {s s' : Session} {task : Task Document} {history : List Document} {document : Document}

theorem Waits.due_of_cancelled (h : s.Waits task) (hcancelled : s.scheduler.isCancelled task.id = true) :
    s.scheduler.due = [] := by
  rw [Scheduler.due, h.waits]
  simp [hcancelled]

theorem Waits.due_eq (h : s.Waits task) (hdue : s.scheduler.isCancelled task.id = false) :
    s.scheduler.due = [task.job] := by
  rw [Scheduler.due, h.waits]
  simp [hdue]

theorem Idle.due_eq (h : s.Idle) : s.scheduler.due = [] := by
  rw [Scheduler.due, h.noneWaits]
  rfl

/-! ## What a document leaves behind -/

/-- A document in a textual language is traced: the trace is the output. -/
theorem execute_of_ne (s : Session) (h : document.language ≠ .html) : (s.execute document).2 =
    { s with bench := s.bench.finishRun (trace document.language document.text) } := by
  obtain ⟨language, text⟩ := document
  cases language with
  | python => rfl
  | java => rfl
  | html => exact absurd rfl h

/-- A document in markup is shown, or the failure is reported. -/
theorem execute_of_eq (s : Session) (h : document.language = .html) :
    (∃ id preview, s.preview.render document.text = (.ok id, preview) ∧
      (s.execute document).2 = { s with bench := s.bench.finishRun [], preview }) ∨
    (∃ e preview, s.preview.render document.text = (.error e, preview) ∧
      (s.execute document).2 =
        { s with bench := s.bench.finishRun [.error ("Error: " ++ e.message)], preview }) := by
  unfold execute
  rw [h]
  dsimp only [Dialect.of?]
  split
  · next id preview hrender => exact .inl ⟨id, preview, hrender, rfl⟩
  · next e preview hrender => exact .inr ⟨e, preview, hrender, rfl⟩

namespace Coherent

/-- With no run, no surface and no output, nothing is to be said. -/
theorem of_empty (hqueue : s.scheduler.queue = []) (hcurrent : s.preview.current = none)
    (hlog : s.bench.log = []) : s.Coherent history where
  queued task htask := by
    rw [hqueue] at htask
    cases htask
  shown id hid := by
    rw [hcurrent] at hid
    cases hid
  reported _ := .inl hlog
  printed _ := .inl hlog

/-- What changes neither language nor output nor surface, and queues nothing. -/
theorem congr (h : s.Coherent history) (hqueue : s'.scheduler.queue ⊆ s.scheduler.queue)
    (hlanguage : s'.bench.language = s.bench.language) (hlog : s'.bench.log = s.bench.log)
    (hpreview : s'.preview = s.preview) : s'.Coherent history where
  queued task htask := (h.queued task (hqueue htask)).trans hlanguage.symm
  shown := by
    rw [hpreview, hlanguage]
    exact h.shown
  reported := by
    rw [hlanguage, hlog]
    exact h.reported
  printed := by
    rw [hlanguage, hlog]
    exact h.printed

/-! ## Runs -/

/-- What is requested is the source in its language. -/
theorem requestRun (h : s.Coherent history) (hflagged : s.Flagged) :
    s.requestRun.2.Coherent history := by
  rcases hflagged with hidle | ⟨task, hwaits⟩
  · rw [hidle.requestRun_eq]
    refine ⟨fun task htask => ?_, h.shown, fun _ => .inl rfl, fun _ => .inl rfl⟩
    rw [List.mem_singleton.mp htask]
    rfl
  · rwa [hwaits.requestRun_eq]

/-- **A document that is carried out** is the last of the history: it is shown, or its output is
there. -/
theorem execute (h : s.Coherent history) (hkept : s.preview.Kept)
    (hlanguage : document.language = s.bench.language) :
    (s.execute document).2.Coherent (history ++ [document]) := by
  have hlast : (history ++ [document]).getLast? = some document := List.getLast?_concat
  by_cases hmarkup : document.language = .html
  · have hhtml : s.bench.language = .html := hlanguage.symm.trans hmarkup
    rcases s.execute_of_eq hmarkup with ⟨id, preview, hrender, hexecute⟩ |
      ⟨e, preview, hrender, hexecute⟩
    · obtain ⟨hcurrent, hlive⟩ := hkept.shown hrender
      rw [hexecute]
      refine ⟨h.queued, fun id' hid' => ⟨hhtml, document, hlast, ?_⟩, fun _ => .inl rfl,
        fun hne => absurd hhtml hne⟩
      obtain rfl : id = id' := Option.some.inj (hcurrent.symm.trans hid')
      exact hlive
    · rw [hexecute]
      refine ⟨h.queued, fun id hid => ?_, fun _ => .inr ⟨_, rfl, rfl⟩, fun hne => absurd hhtml hne⟩
      rw [Preview.current_of_render_error hrender] at hid
      cases hid
  · have htextual : s.bench.language ≠ .html := fun hhtml => hmarkup (hlanguage.trans hhtml)
    rw [s.execute_of_ne hmarkup]
    exact ⟨h.queued, fun id hid => absurd (h.shown id hid).1 htextual,
      fun hhtml => absurd hhtml htextual, fun _ => .inr ⟨document, hlast, rfl⟩⟩

/-- What waits is fired, and is the last of the history unless it was cancelled. -/
theorem runPending (h : s.Coherent history) (hflagged : s.Flagged) (hkept : s.preview.Kept) :
    s.runPending.2.Coherent (history ++ s.scheduler.due) := by
  rcases hflagged with hidle | ⟨task, hwaits⟩
  · rwa [hidle.runPending_eq, hidle.due_eq, List.append_nil]
  · have hreleased : s.released.Coherent history :=
      h.congr (List.nil_subset _) rfl rfl rfl
    cases hcancelled : s.scheduler.isCancelled task.id with
    | true =>
      rw [hwaits.runPending_of_cancelled hcancelled, hwaits.due_of_cancelled hcancelled,
        List.append_nil]
      exact hreleased.congr (List.Subset.refl _) rfl rfl rfl
    | false =>
      rw [hwaits.runPending_of_due hcancelled, hwaits.due_eq hcancelled]
      refine hreleased.execute hkept (h.queued task ?_)
      rw [hwaits.waits]
      exact List.mem_singleton_self task

/-! ## Operations -/

/-- **Every operation** adds to the history what it fires, and keeps to it. -/
theorem perform (h : s.Coherent history) (hflagged : s.Flagged) (hkept : s.preview.Kept)
    (operation : Operation) : (s.perform operation).Coherent (history ++ s.fired operation) := by
  cases operation with
  | run =>
    obtain ⟨task, hwaits⟩ := hflagged.exists_waits_requestRun
    exact (h.requestRun hflagged).runPending (.inr ⟨task, hwaits⟩) (s.requestRun_preview ▸ hkept)
  | runPending => exact h.runPending hflagged hkept
  | requestRun =>
    rw [fired, List.append_nil]
    exact h.requestRun hflagged
  | cancel id =>
    rw [fired, List.append_nil]
    exact h.congr (List.Subset.refl _) rfl rfl rfl
  | clear => exact of_empty hflagged.idle_clear.noneWaits (Preview.discard_current _) rfl
  | switchLanguage l =>
    exact of_empty (hflagged.idle_switchLanguage l).noneWaits (Preview.discard_current _) rfl
  | edit text =>
    rw [fired, List.append_nil]
    exact h.congr (List.Subset.refl _) rfl rfl rfl
  | insertIndent start stop =>
    rw [fired, List.append_nil]
    exact h.congr (List.Subset.refl _) rfl rfl rfl

theorem performAll (h : s.Coherent history) (hflagged : s.Flagged) (hkept : s.preview.Kept)
    (operations : List Operation) :
    (s.performAll operations).Coherent (history ++ s.firedAll operations) := by
  induction operations generalizing s history with
  | nil => rwa [firedAll, List.append_nil]
  | cons operation operations ih =>
    rw [firedAll, ← List.append_assoc]
    exact ih (h.perform hflagged hkept operation) (hflagged.perform operation)
      (hkept.reaches (reaches_perform s operation))

end Coherent

/-- **A session is coherent**, whatever happens to it and whatever the host refuses: a run that
waits is in the language of the source, and the surface and the output are those of the run that
fired last. -/
theorem coherent_performAll (settings : Settings) (refusals : Refusals)
    (operations : List Operation) :
    let s := Session.new settings { refusals }
    (s.performAll operations).Coherent (s.firedAll operations) := by
  intro s
  have hnew : s.Coherent [] := .of_empty rfl rfl rfl
  exact hnew.performAll (.new settings refusals) (.new refusals) operations

/-- A source that is edited behind its run: the surface still holds what was run. -/
theorem coherent_edited :
    let s := Session.new { language := .html } { refusals := .none }
    let operations : List Operation := [.edit "<p>a</p>", .run, .edit "<p>b</p>"]
    s.firedAll operations = [⟨.html, "<p>a</p>"⟩] ∧
      (s.performAll operations).preview.current = some 1 ∧
      ∃ d, (s.firedAll operations).getLast? = some d ∧
        (s.performAll operations).preview.host.live.lookup 1 = some d.text := by
  intro s operations
  have hcurrent : (s.performAll operations).preview.current = some 1 := by decide
  have hcoherent := coherent_performAll { language := .html } .none operations
  exact ⟨by decide, hcurrent, (hcoherent.shown 1 hcurrent).2⟩

end Session
end Workbench
