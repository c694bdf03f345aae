import Workbench.Text.Basic

/-!
# Session/Scheduler — jobs that wait, and may be cancelled meanwhile

Jobs come out in the order in which they were scheduled, whatever their delays.  A cancelled job
keeps its place and comes out marked; its handle stays marked for good.
-/

namespace Workbench

/-- A job in the queue. -/
structure Task (α : Type) where
  /-- The number of the task, which is its handle. -/
  id : Nat
  /-- The pause before the job, in milliseconds. -/
  delay : Nat
  job : α
  deriving DecidableEq, Repr

/-- What comes out of the queue. -/
inductive Fired (α : Type)
  /-- The job is to be run. -/
  | due (job : α)
  /-- The job was cancelled and comes back unrun. -/
  | cancelled (job : α)
  deriving DecidableEq, Repr

/-- Jobs that wait, oldest first. -/
structure Scheduler (α : Type) where
  /-- The number of tasks scheduled so far. -/
  issued : Nat := 0
  queue : List (Task α) := []
  /-- The handles that were cancelled. -/
  cancelled : List Nat := []
  deriving DecidableEq, Repr

namespace Scheduler

variable {α : Type}

/-- Queues a job; its handle comes first. -/
def schedule (s : Scheduler α) (delay : Nat) (job : α) : Nat × Scheduler α :=
  let id := s.issued + 1
  (id, { s with issued := id, queue := s.queue ++ [⟨id, delay, job⟩] })

/-- Marks a handle as cancelled. -/
def cancel (s : Scheduler α) (id : Nat) : Scheduler α :=
  { s with cancelled := id :: s.cancelled }

/-- Whether a handle was cancelled. -/
def isCancelled (s : Scheduler α) (id : Nat) : Bool := id ∈ s.cancelled

/-- The number of jobs that wait. -/
def pending (s : Scheduler α) : Nat := s.queue.length

/-- Cancels and drops every job that waits; their number comes first. -/
def cancelAll (s : Scheduler α) : Nat × Scheduler α :=
  (s.pending, { s with queue := [], cancelled := s.queue.map (·.id) ++ s.cancelled })

/-- Takes the oldest job out of the queue. -/
def next (s : Scheduler α) : Option (Fired α) × Scheduler α :=
  match s.queue with
  | [] => (none, s)
  | task :: rest =>
    (some (if s.isCancelled task.id then .cancelled task.job else .due task.job),
      { s with queue := rest })

end Scheduler
end Workbench
