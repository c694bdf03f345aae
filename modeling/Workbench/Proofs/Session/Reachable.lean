import Workbench.Proofs.Session.Handle
import Workbench.Proofs.Session.Rest
import Workbench.Proofs.Surface.Fresh

/-!
# Proofs/Session/Reachable — what a session comes to

A handle is known only to whoever requested its run, so a cancellation names a handle that was given
out before (`Operation.Known`).  The sessions that operations of that kind lead to are `Reachable`,
whatever the host refuses.  In each of them the flag is right, no handle that is yet to be given out
is cancelled, and the accounts of surfaces are kept; so one in which no run waits is fit for the
next run (`Reachable.atRest`).
-/

namespace Workbench.Session

variable {s : Session} {settings : Settings} {refusals : Refusals}

/-- Only handles that were given out are cancelled. -/
def Operation.Known (issued : Nat) : Operation → Prop
  | .cancel id => id ≤ issued
  | .run | .requestRun | .runPending | .clear | .switchLanguage _ | .edit _ | .insertIndent _ _ =>
    True

/-- What a session comes to. -/
inductive Reachable (settings : Settings) (refusals : Refusals) : Session → Prop
  | new : Reachable settings refusals (.new settings { refusals })
  | perform {s : Session} (operation : Operation) : Reachable settings refusals s →
      operation.Known s.scheduler.issued → Reachable settings refusals (s.perform operation)

/-! ## Handles -/

/-- A run is requested under the next number. -/
theorem numbered_requestRun (h : s.scheduler.Numbered) : s.requestRun.2.scheduler.Numbered := by
  unfold requestRun
  split
  · exact h
  · exact h.schedule _ _

/-- Running a document leaves the queue alone. -/
theorem execute_scheduler (s : Session) (document : Document) :
    (s.execute document).2.scheduler = s.scheduler := by
  rcases s.execute_cases document with ⟨log, preview, hexecute⟩ | ⟨id, preview, -, hexecute⟩
  · rw [hexecute]
  · rw [hexecute]

/-- A run that is due leaves the queue, and no handle is marked for it. -/
theorem numbered_fireNext (h : s.scheduler.Numbered) : s.fireNext.2.scheduler.Numbered := by
  have hnext := h.next
  unfold fireNext
  split
  · exact h
  · next document scheduler hs =>
    rw [hs] at hnext
    show ({ s with scheduler }.execute document).2.scheduler.Numbered
    rwa [execute_scheduler]
  · next hs => rwa [hs] at hnext

theorem numbered_runPending (h : s.scheduler.Numbered) : s.runPending.2.scheduler.Numbered :=
  runPending_of_fireNext (P := fun s => s.scheduler.Numbered) (fun _ => numbered_fireNext) h

/-- Handles that are cancelled all at once waited, so they were given out. -/
theorem numbered_dropPending (h : s.scheduler.Numbered) : s.dropPending.scheduler.Numbered := by
  rw [dropPending_scheduler]
  exact h.cancelAll

/-- Every operation keeps the handles numbered, as long as it cancels only what was given out. -/
theorem numbered_perform (h : s.scheduler.Numbered) {operation : Operation}
    (hknown : operation.Known s.scheduler.issued) : (s.perform operation).scheduler.Numbered := by
  cases operation with
  | run => exact numbered_runPending (numbered_requestRun h)
  | requestRun => exact numbered_requestRun h
  | runPending => exact numbered_runPending h
  | cancel id => exact h.cancel hknown
  | clear => exact numbered_dropPending h
  | switchLanguage l => exact numbered_dropPending h
  | edit text => exact h
  | insertIndent start stop => exact h

/-! ## Reachable sessions -/

namespace Reachable

/-- The flag of a reachable session is right. -/
theorem flagged (h : Reachable settings refusals s) : s.Flagged := by
  induction h with
  | new => exact .new settings refusals
  | perform operation _ _ ih => exact ih.perform operation

/-- The handles of a reachable session are numbered. -/
theorem numbered (h : Reachable settings refusals s) : s.scheduler.Numbered := by
  induction h with
  | new => exact .new
  | perform operation _ hknown ih => exact numbered_perform ih hknown

/-- The surfaces of a reachable session are what runs and switches made of none. -/
theorem reaches (h : Reachable settings refusals s) :
    Preview.Reaches { host := { refusals } } s.preview := by
  induction h with
  | new => exact .refl
  | perform operation _ _ ih => exact ih.trans (reaches_perform _ operation)

/-- The accounts of surfaces are kept, whatever the host refused. -/
theorem kept (h : Reachable settings refusals s) : s.preview.Kept :=
  (Preview.Kept.new refusals).reaches h.reaches

/-- No surface was torn down that was never mounted. -/
theorem past (h : Reachable settings refusals s) : s.preview.Past :=
  (Preview.Past.new refusals).reaches (.new refusals) h.reaches

/-- With no run that waits, a session is fit for the next. -/
theorem atRest (h : Reachable settings refusals s) (hpending : s.scheduler.pending = 0) :
    s.AtRest := by
  have hnone : s.scheduler.queue = [] := List.length_eq_zero_iff.mp hpending
  rcases h.flagged with hidle | ⟨task, hwaits⟩
  · exact ⟨hidle, h.numbered.cancelled, h.kept⟩
  · cases hwaits.waits.symm.trans hnone

end Reachable

end Workbench.Session
