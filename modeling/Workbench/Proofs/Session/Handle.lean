import Mathlib
import Workbench.Session.Scheduler

/-!
# Proofs/Session/Handle — marks on handles

A handle is marked as cancelled, whatever has become of its job, and marks are never taken back.
Handles are numbered upwards, so one that is yet to be given out has no mark (`Numbered`).
-/

namespace Workbench.Scheduler

variable {α : Type} {s : Scheduler α}

/-- Cancelling a handle marks it and no other. -/
theorem isCancelled_cancel (s : Scheduler α) (id other : Nat) :
    (s.cancel id).isCancelled other = (decide (other = id) || s.isCancelled other) := by
  simp [cancel, isCancelled]

/-- Cancelling all marks the handles that wait. -/
theorem isCancelled_cancelAll (s : Scheduler α) (id : Nat) :
    s.cancelAll.2.isCancelled id = (decide (id ∈ s.queue.map Task.id) || s.isCancelled id) := by
  simp [cancelAll, isCancelled]

/-- Every handle that is marked or waits was given out. -/
structure Numbered (s : Scheduler α) : Prop where
  cancelled : ∀ id ∈ s.cancelled, id ≤ s.issued
  queued : ∀ task ∈ s.queue, task.id ≤ s.issued

namespace Numbered

theorem new : ({} : Scheduler α).Numbered where
  cancelled := nofun
  queued := nofun

/-- A new job gets a handle beyond all that were given out. -/
theorem schedule (h : s.Numbered) (delay : Nat) (job : α) :
    (s.schedule delay job).2.Numbered where
  cancelled id hid := Nat.le_succ_of_le (h.cancelled id hid)
  queued task htask := by
    rcases List.mem_append.mp htask with htask | htask
    · exact Nat.le_succ_of_le (h.queued task htask)
    · rw [List.mem_singleton.mp htask]
      exact Nat.le_refl _

/-- Only a handle that was given out may be marked. -/
theorem cancel (h : s.Numbered) {id : Nat} (hid : id ≤ s.issued) : (s.cancel id).Numbered where
  cancelled := List.forall_mem_cons.mpr ⟨hid, h.cancelled⟩
  queued := h.queued

theorem cancelAll (h : s.Numbered) : s.cancelAll.2.Numbered where
  cancelled id hid := by
    rcases List.mem_append.mp hid with hid | hid
    · obtain ⟨task, htask, rfl⟩ := List.mem_map.mp hid
      exact h.queued task htask
    · exact h.cancelled id hid
  queued := nofun

/-- Taking a job off the queue marks nothing. -/
theorem next (h : s.Numbered) : s.next.2.Numbered := by
  rw [Scheduler.next]
  split
  · exact h
  · next hqueue => exact ⟨h.cancelled, fun t ht => h.queued t (hqueue ▸ List.mem_cons_of_mem _ ht)⟩

/-- The handle that is given out next has no mark. -/
theorem isCancelled_succ_issued (h : s.Numbered) : s.isCancelled (s.issued + 1) = false :=
  decide_eq_false fun hmem => absurd (h.cancelled _ hmem) (Nat.not_succ_le_self _)

end Numbered

end Workbench.Scheduler
