import Workbench.Proofs.Surface.Stray
import Workbench.Session.Basic

/-!
# Proofs/Session/Operation — what happens to a session

A session is what the operations make of it, one after the other (`performAll`).  Whatever an
operation does to the bench and to the runs that wait, it changes the preview only by renders and
discards (`reaches_perform`), so a law of the preview is a law of every session: all that is live is
the current surface, exactly as long as the host refused no teardown (`single_surface_iff`).
-/

namespace Workbench.Session

/-- What can be done to a session. -/
inductive Operation
  | run
  | requestRun
  | runPending
  /-- Cancels the run of a handle, whether or not it waits. -/
  | cancel (id : Nat)
  | clear
  | switchLanguage (l : Language)
  | edit (text : Text)
  | insertIndent (start stop : Nat)
  deriving DecidableEq, Repr

/-- What an operation makes of a session. -/
def perform (s : Session) : Operation → Session
  | .run => s.run.2
  | .requestRun => s.requestRun.2
  | .runPending => s.runPending.2
  | .cancel id => s.cancel id
  | .clear => s.clear
  | .switchLanguage l => s.switchLanguage l
  | .edit text => s.edit text
  | .insertIndent start stop => s.insertIndent start stop

/-- What operations make of a session, one after the other. -/
def performAll (s : Session) (operations : List Operation) : Session := operations.foldl perform s

variable {s : Session}

/-- What every fired run keeps, `runPending` keeps. -/
theorem runPending_of_fireNext {P : Session → Prop} (hfire : ∀ s, P s → P s.fireNext.2) (hs : P s) :
    P s.runPending.2 := by
  unfold runPending
  induction s.scheduler.queue using List.reverseRecOn with
  | nil => exact hs
  | append_singleton tasks task ih =>
    rw [List.foldl_append]
    exact hfire _ ih

/-! ## The preview -/

/-- A request for a run leaves the surfaces alone. -/
theorem requestRun_preview (s : Session) : s.requestRun.2.preview = s.preview := by
  unfold requestRun
  split <;> rfl

theorem dropPending_preview (s : Session) : s.dropPending.preview = s.preview := by
  unfold dropPending
  dsimp only
  split <;> rfl

/-- Running a document renders it, or leaves the surfaces alone. -/
theorem reaches_execute (s : Session) (document : Document) :
    s.preview.Reaches (s.execute document).2.preview := by
  have hrender : s.preview.Reaches (s.preview.render document.text).2 :=
    Preview.Reaches.refl.render _
  unfold execute
  split
  · exact .refl
  · split
    · next hresult => rwa [hresult] at hrender
    · next hresult => rwa [hresult] at hrender

theorem reaches_fireNext (s : Session) : s.preview.Reaches s.fireNext.2.preview := by
  unfold fireNext
  split
  · exact .refl
  · next document scheduler _ => exact reaches_execute { s with scheduler } document
  · exact .refl

/-- All runs that are due render one after the other. -/
theorem reaches_runPending (s : Session) : s.preview.Reaches s.runPending.2.preview :=
  runPending_of_fireNext (P := fun s' => s.preview.Reaches s'.preview)
    (fun s' h => h.trans (reaches_fireNext s')) .refl

theorem reaches_discardSurface (s : Session) :
    s.preview.Reaches s.dropPending.discardSurface.preview := by
  have h : s.dropPending.preview.Reaches s.dropPending.discardSurface.preview :=
    Preview.Reaches.refl.discard
  rwa [dropPending_preview] at h

/-- The preview changes only by renders and discards. -/
theorem reaches_perform (s : Session) (operation : Operation) :
    s.preview.Reaches (s.perform operation).preview := by
  cases operation with
  | run =>
    have h := reaches_runPending s.requestRun.2
    rwa [requestRun_preview] at h
  | requestRun =>
    have h : s.requestRun.2.preview = s.preview := requestRun_preview s
    rw [perform, h]
    exact .refl
  | runPending => exact reaches_runPending s
  | cancel => exact .refl
  | clear => exact reaches_discardSurface s
  | switchLanguage => exact reaches_discardSurface s
  | edit => exact .refl
  | insertIndent => exact .refl

/-- **Operations come down to rendering and discarding**, as far as surfaces go. -/
theorem reaches_performAll (s : Session) (operations : List Operation) :
    s.preview.Reaches (s.performAll operations).preview := by
  induction operations generalizing s with
  | nil => exact .refl
  | cons operation operations ih => exact (reaches_perform s operation).trans (ih _)

/-- **The single surface of a session**: whatever happens to it, all that is live is the current
surface, exactly as long as the host refused no teardown. -/
theorem single_surface_iff (settings : Settings) (refusals : Refusals)
    (operations : List Operation) :
    let s := (Session.new settings { refusals }).performAll operations
    s.preview.Single ↔ ∀ call, 1 ≤ call → call ≤ s.preview.host.teardownCalls →
      refusals.teardown call = false := by
  intro s
  have hreaches : Preview.Reaches { host := { refusals } } s.preview :=
    reaches_performAll (Session.new settings { refusals }) operations
  have hrefusals : s.preview.host.refusals = refusals := hreaches.refusals
  have hsingle := ((Preview.Kept.new refusals).reaches hreaches).single_iff
  rwa [hrefusals] at hsingle

/-- A teardown refused while the output is emptied leaves a surface that stays live beside the
next. -/
theorem two_surfaces :
    let settings : Settings := { language := .html }
    let refusals : Refusals := ⟨fun _ => false, fun call => call = 1⟩
    let s := (Session.new settings { refusals }).performAll
      [.edit "<p>a</p>", .run, .clear, .run]
    s.preview.host.ids = [1, 2] ∧ s.preview.current = some 2 ∧ ¬ s.preview.Single := by
  intro settings refusals s
  have hids : s.preview.host.ids = [1, 2] := by decide
  have hcurrent : s.preview.current = some 2 := by decide
  refine ⟨hids, hcurrent, fun hsingle => ?_⟩
  have hlength := hsingle.1
  rw [← List.length_map Prod.fst, ← Host.ids, hids] at hlength
  exact absurd hlength (by decide)

end Workbench.Session
