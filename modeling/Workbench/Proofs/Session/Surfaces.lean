import Workbench.Proofs.Session.Reachable
import Workbench.Proofs.Surface.Chronicle

/-!
# Proofs/Session/Surfaces — the surfaces of a session are accounted for

What an operation asks of the preview is plain from the session before it (`actions`): a run renders
its document if that is markup, and emptying the output or a switch of language discards what is
shown.  So the accounts of surfaces that a preview keeps are those of the session
(`accounts_surfaces`).
-/

namespace Workbench.Session

/-! ## What is asked of the preview -/

/-- What a run asks of the preview once it fires. -/
def fires (scheduler : Scheduler Document) (task : Task Document) : List Preview.Action :=
  if scheduler.isCancelled task.id || !task.job.language.isMarkup then []
  else [.render task.job.text]

/-- What all runs that wait ask of the preview. -/
def firesAll (s : Session) : List Preview.Action :=
  s.scheduler.queue.flatMap (fires s.scheduler)

/-- What an operation asks of the preview. -/
def actions (s : Session) : Operation → List Preview.Action
  | .run => s.requestRun.2.firesAll
  | .runPending => s.firesAll
  | .clear | .switchLanguage _ => [.discard]
  | .requestRun | .cancel _ | .edit _ | .insertIndent _ _ => []

/-- What operations ask of the preview, one after the other. -/
def actionsAll (s : Session) : List Operation → List Preview.Action
  | [] => []
  | operation :: operations => s.actions operation ++ (s.perform operation).actionsAll operations

variable {s : Session}

/-- Only markup is rendered. -/
theorem execute_preview (s : Session) (document : Document) :
    (s.execute document).2.preview =
      if document.language.isMarkup then (s.preview.render document.text).2 else s.preview := by
  have hmarkup := Dialect.isSome_of? document.language
  unfold execute
  split
  · next hdialect =>
    rw [hdialect, Option.isSome_some, Eq.comm, Bool.not_eq_true'] at hmarkup
    rw [hmarkup]
    rfl
  · next hdialect =>
    rw [hdialect, Option.isSome_none, Eq.comm, Bool.not_eq_false'] at hmarkup
    rw [hmarkup, if_pos rfl]
    split
    · next hrender => rw [hrender]
    · next hrender => rw [hrender]

/-- The oldest run fires, and the others go on waiting. -/
theorem fireNext_preview {task : Task Document} {rest : List (Task Document)}
    (hqueue : s.scheduler.queue = task :: rest) :
    s.fireNext.2.preview = s.preview.actAll (fires s.scheduler task) ∧
      s.fireNext.2.scheduler = { s.scheduler with queue := rest } := by
  have hnext : s.scheduler.next =
      (some (if s.scheduler.isCancelled task.id then .cancelled task.job else .due task.job),
        { s.scheduler with queue := rest }) := by
    rw [Scheduler.next, hqueue]
  cases hcancelled : s.scheduler.isCancelled task.id with
  | true =>
    rw [hcancelled, if_pos rfl] at hnext
    rw [fireNext, hnext, fires, hcancelled]
    exact ⟨rfl, rfl⟩
  | false =>
    rw [hcancelled, if_neg Bool.false_ne_true] at hnext
    rw [fireNext, hnext, fires, hcancelled]
    refine ⟨?_, execute_scheduler _ task.job⟩
    dsimp only
    rw [execute_preview]
    cases task.job.language.isMarkup <;> rfl

theorem runPending_preview (s : Session) :
    s.runPending.2.preview = s.preview.actAll s.firesAll := by
  unfold runPending firesAll
  generalize (none : Option Outcome) = outcome
  induction hqueue : s.scheduler.queue generalizing s outcome with
  | nil => rfl
  | cons task rest ih =>
    obtain ⟨hpreview, hscheduler⟩ := fireNext_preview hqueue
    have hrest := ih s.fireNext.2 s.fireNext.1 (by rw [hscheduler])
    -- who is cancelled does not change while runs fire
    have hfires : fires s.fireNext.2.scheduler = fires s.scheduler := by
      rw [hscheduler]
      rfl
    rw [hfires, hpreview] at hrest
    rw [List.flatMap_cons, Preview.actAll, List.foldl_append]
    exact hrest

theorem perform_preview (s : Session) (operation : Operation) :
    (s.perform operation).preview = s.preview.actAll (s.actions operation) := by
  have hdiscard : s.dropPending.discardSurface.preview = s.preview.discard.2 :=
    congrArg (fun p => p.discard.2) (dropPending_preview s)
  cases operation with
  | run => exact (runPending_preview s.requestRun.2).trans (by rw [requestRun_preview]; rfl)
  | requestRun => exact requestRun_preview s
  | runPending => exact runPending_preview s
  | clear => exact hdiscard
  | switchLanguage => exact hdiscard
  | cancel | edit | insertIndent => rfl

theorem performAll_preview (s : Session) (operations : List Operation) :
    (s.performAll operations).preview = s.preview.actAll (s.actionsAll operations) := by
  induction operations generalizing s with
  | nil => rfl
  | cons operation operations ih =>
    rw [actionsAll, Preview.actAll, List.foldl_append]
    exact (ih _).trans (congrArg (Preview.actAll · _) (perform_preview s operation))

/-! ## The accounts -/

/-- **Every surface is accounted for**, whatever is rendered and discarded, whatever happens to a
session, and whatever the host refuses. -/
theorem accounts_surfaces (settings : Settings) (refusals : Refusals) :
    (∀ actions, Preview.Accounts refusals actions ((Preview.start refusals).actAll actions)) ∧
      ∀ operations, let s := Session.new settings { refusals }
        Preview.Accounts refusals (s.actionsAll operations) (s.performAll operations).preview := by
  refine ⟨Preview.accounts_actAll refusals, fun operations => ?_⟩
  intro s
  rw [performAll_preview]
  exact Preview.accounts_actAll refusals _

end Workbench.Session
