import Workbench.Proofs.Session.Handle

/-!
# Proofs/Session/Ledger — what becomes of each job

A **ledger** has an entry for every job that was ever scheduled, oldest first: its handle, whether
the handle is cancelled, and what has become of the job, which waits, was returned or was dropped.
It answers what a scheduler is asked (`Ledger.perform`), and it never forgets: a handle is marked
for a reason that is in its past (`Marked.perform`), and what was answered is what became of the
jobs (`Told.perform`).
-/

namespace Workbench

/-- The job that comes back, whether or not it is to be run. -/
def Fired.job {α : Type} : Fired α → α
  | .due job | .cancelled job => job

namespace Scheduler

/-! ## Operations -/

/-- What can be done to a scheduler. -/
inductive Operation (α : Type)
  | schedule (delay : Nat) (job : α)
  /-- Cancels a handle, whether or not its job waits. -/
  | cancel (id : Nat)
  | cancelAll
  | next
  deriving DecidableEq, Repr

/-- What an operation answers. -/
inductive Answer (α : Type)
  | handle (id : Nat)
  | cancelled
  | dropped (count : Nat)
  | fired (out : Option (Fired α))
  deriving DecidableEq, Repr

variable {α σ : Type}

/-- The job that is scheduled. -/
def Operation.job? : Operation α → Option α
  | schedule _ job => some job
  | cancel _ | cancelAll | next => none

/-- The handle that is answered. -/
def Answer.handle? : Answer α → Option Nat
  | handle id => some id
  | cancelled | dropped _ | fired _ => none

/-- The job that is answered. -/
def Answer.job? : Answer α → Option α
  | fired out => out.map Fired.job
  | handle _ | cancelled | dropped _ => none

/-- The number of jobs that are answered to be dropped. -/
def Answer.count : Answer α → Nat
  | dropped count => count
  | handle _ | cancelled | fired _ => 0

/-- What an operation answers, and the scheduler behind it. -/
def perform (s : Scheduler α) : Operation α → Answer α × Scheduler α
  | .schedule delay job => (.handle (s.schedule delay job).1, (s.schedule delay job).2)
  | .cancel id => (.cancelled, s.cancel id)
  | .cancelAll => (.dropped s.cancelAll.1, s.cancelAll.2)
  | .next => (.fired s.next.1, s.next.2)

/-- What operations answer, one after the other, and the state behind them. -/
def inTurn (perform : σ → Operation α → Answer α × σ) (s : σ) :
    List (Operation α) → List (Answer α) × σ
  | [] => ([], s)
  | operation :: operations =>
    let (answer, s) := perform s operation
    let (answers, s) := inTurn perform s operations
    (answer :: answers, s)

/-- Only handles that were made so far are cancelled. -/
def Known (issued : Nat) : List (Operation α) → Prop
  | [] => True
  | .schedule _ _ :: operations => Known (issued + 1) operations
  | .cancel id :: operations => id ≤ issued ∧ Known issued operations
  | .cancelAll :: operations | .next :: operations => Known issued operations

/-! ## The ledger -/

/-- What has become of a job. -/
inductive Fate
  | waiting
  | returned
  | dropped
  deriving DecidableEq, Repr

/-- What is known of a job. -/
structure Entry (α : Type) where
  id : Nat
  job : α
  fate : Fate := .waiting
  /-- Whether the handle is cancelled. -/
  cancelled : Bool := false
  deriving DecidableEq, Repr

/-- The jobs that were scheduled, oldest first. -/
abbrev Ledger (α : Type) := List (Entry α)

namespace Entry

/-- How the job comes out of the queue. -/
def fired (e : Entry α) : Fired α := if e.cancelled then .cancelled e.job else .due e.job

/-- The entry behind the cancellation of a handle. -/
def mark (id : Nat) (e : Entry α) : Entry α := if e.id = id then { e with cancelled := true } else e

/-- The entry when all that waits is dropped. -/
def drop (e : Entry α) : Entry α :=
  if e.fate = .waiting then { e with fate := .dropped, cancelled := true } else e

end Entry

namespace Ledger

/-- The entries of a fate. -/
def of (ledger : Ledger α) (fate : Fate) : Ledger α := ledger.filter fun e => e.fate = fate

/-- The oldest job that waits is returned. -/
def takeOldest : Ledger α → Ledger α
  | [] => []
  | e :: ledger =>
    if e.fate = .waiting then { e with fate := .returned } :: ledger else e :: takeOldest ledger

/-- What an operation answers, and the ledger behind it. -/
def perform (ledger : Ledger α) : Operation α → Answer α × Ledger α
  | .schedule _ job => (.handle (ledger.length + 1), ledger ++ [{ id := ledger.length + 1, job }])
  | .cancel id => (.cancelled, ledger.map (Entry.mark id))
  | .cancelAll => (.dropped (ledger.of .waiting).length, ledger.map Entry.drop)
  | .next => (.fired ((ledger.of .waiting).head?.map Entry.fired), ledger.takeOldest)

end Ledger

variable {settled waiting ledger : Ledger α} {e : Entry α} {past : List (Operation α)}
variable {told : List (Answer α)} {operation : Operation α}

/-! ## Entries under the operations -/

@[simp] theorem Entry.mark_id (id : Nat) (e : Entry α) : (e.mark id).id = e.id := by
  unfold mark
  split <;> rfl

@[simp] theorem Entry.mark_job (id : Nat) (e : Entry α) : (e.mark id).job = e.job := by
  unfold mark
  split <;> rfl

@[simp] theorem Entry.mark_fate (id : Nat) (e : Entry α) : (e.mark id).fate = e.fate := by
  unfold mark
  split <;> rfl

/-- A cancellation marks the entries of its handle and no others. -/
theorem Entry.mark_cancelled (id : Nat) (e : Entry α) :
    (e.mark id).cancelled = (decide (e.id = id) || e.cancelled) := by
  unfold mark
  split <;> simp_all

@[simp] theorem Entry.fired_job (e : Entry α) : e.fired.job = e.job := by
  unfold fired
  split <;> rfl

@[simp] theorem Entry.drop_job (e : Entry α) : e.drop.job = e.job := by
  unfold drop
  split <;> rfl

theorem Entry.drop_of_waits (h : e.fate = .waiting) :
    e.drop = { e with fate := .dropped, cancelled := true } :=
  if_pos h

theorem Entry.drop_of_settled (h : e.fate ≠ .waiting) : e.drop = e := if_neg h

namespace Ledger

/-- Entries of one fate are found part by part. -/
theorem of_append (ledger ledger' : Ledger α) (fate : Fate) :
    (ledger ++ ledger').of fate = ledger.of fate ++ ledger'.of fate :=
  List.filter_append ..

theorem of_cons_of_eq {fate : Fate} (h : e.fate = fate) :
    of (e :: ledger) fate = e :: ledger.of fate :=
  List.filter_cons_of_pos (decide_eq_true h)

theorem of_cons_of_ne {fate : Fate} (h : e.fate ≠ fate) :
    of (e :: ledger) fate = ledger.of fate :=
  List.filter_cons_of_neg (by simpa using h)

theorem of_eq_self {fate : Fate} (h : ∀ e ∈ waiting, e.fate = fate) : waiting.of fate = waiting :=
  List.filter_eq_self.mpr fun e he => decide_eq_true (h e he)

theorem of_eq_nil {fate : Fate} (h : ∀ e ∈ settled, e.fate ≠ fate) : settled.of fate = [] :=
  List.filter_eq_nil_iff.mpr fun e he => by simpa using h e he

/-- What waits in a ledger is its last part. -/
theorem of_waiting_append (hsettled : ∀ e ∈ settled, e.fate ≠ .waiting)
    (hwaits : ∀ e ∈ waiting, e.fate = .waiting) : of (settled ++ waiting) .waiting = waiting := by
  rw [of_append, of_eq_nil hsettled, of_eq_self hwaits, List.nil_append]

/-- The oldest job that waits is behind all that are settled. -/
theorem takeOldest_append (h : ∀ e ∈ settled, e.fate ≠ .waiting) (ledger : Ledger α) :
    (settled ++ ledger).takeOldest = settled ++ ledger.takeOldest := by
  induction settled with
  | nil => rfl
  | cons e settled ih =>
    obtain ⟨he, hsettled⟩ := List.forall_mem_cons.mp h
    rw [List.cons_append, takeOldest, if_neg he, ih hsettled, List.cons_append]

/-- Taking a job changes its fate, not the job. -/
theorem map_job_takeOldest (ledger : Ledger α) :
    ledger.takeOldest.map Entry.job = ledger.map Entry.job := by
  induction ledger with
  | nil => rfl
  | cons e ledger ih =>
    rw [takeOldest]
    split <;> simp [ih]

theorem length_takeOldest (ledger : Ledger α) : ledger.takeOldest.length = ledger.length := by
  simpa using congrArg List.length (map_job_takeOldest ledger)

/-- A returned job keeps all but its fate. -/
theorem exists_of_mem_takeOldest (h : e ∈ ledger.takeOldest) :
    ∃ e' ∈ ledger, e'.id = e.id ∧ e'.cancelled = e.cancelled ∧
      (e'.fate = .dropped ↔ e.fate = .dropped) := by
  induction ledger with
  | nil => cases h
  | cons e' ledger ih =>
    rw [takeOldest] at h
    split at h
    case isTrue hwaits =>
      obtain rfl | h := List.mem_cons.mp h
      · exact ⟨e', List.mem_cons_self, rfl, rfl, by simp [hwaits]⟩
      · exact ⟨e, List.mem_cons_of_mem _ h, rfl, rfl, Iff.rfl⟩
    case isFalse =>
      obtain rfl | h := List.mem_cons.mp h
      · exact ⟨e, List.mem_cons_self, rfl, rfl, Iff.rfl⟩
      · obtain ⟨e', he', hsame⟩ := ih h
        exact ⟨e', List.mem_cons_of_mem _ he', hsame⟩

/-- A mark does not change the fate of a job. -/
theorem of_map_mark (id : Nat) (ledger : Ledger α) (fate : Fate) :
    of (ledger.map (Entry.mark id)) fate = (ledger.of fate).map (Entry.mark id) := by
  rw [of, of, List.filter_map]
  exact congrArg _ (List.filter_congr fun e _ => by simp)

theorem of_returned_map_drop (ledger : Ledger α) :
    of (ledger.map Entry.drop) .returned = ledger.of .returned := by
  induction ledger with
  | nil => rfl
  | cons e ledger ih =>
    simp only [of, List.map_cons] at ih ⊢
    cases hfate : e.fate <;> simp [Entry.drop, hfate, ih]

/-- Dropping what waits adds it to what was dropped before. -/
theorem length_of_dropped_map_drop (ledger : Ledger α) :
    (of (ledger.map Entry.drop) .dropped).length =
      (ledger.of .dropped).length + (ledger.of .waiting).length := by
  induction ledger with
  | nil => rfl
  | cons e ledger ih =>
    simp only [of, List.map_cons] at ih ⊢
    cases hfate : e.fate <;> simp [Entry.drop, hfate, ih] <;> omega

/-- Each job has one fate. -/
theorem length_eq (ledger : Ledger α) : ledger.length =
    (ledger.of .waiting).length + (ledger.of .returned).length + (ledger.of .dropped).length := by
  induction ledger with
  | nil => rfl
  | cons e ledger ih =>
    simp only [of] at ih ⊢
    cases hfate : e.fate <;> simp [hfate] <;> omega

end Ledger

/-! ## Why a handle is cancelled -/

namespace Ledger

/-- **The marks of a ledger**: a handle is cancelled if the past names it, or its job was
dropped. -/
structure Marked (past : List (Operation α)) (ledger : Ledger α) : Prop where
  named : ∀ id, .cancel id ∈ past → id ≤ ledger.length
  cancelled : ∀ e ∈ ledger, e.cancelled = true ↔ e.fate = .dropped ∨ .cancel e.id ∈ past

/-- **Marks** are right behind every operation. -/
theorem Marked.perform (h : Marked past ledger)
    (hknown : ∀ id, operation = .cancel id → id ≤ ledger.length) :
    Marked (past ++ [operation]) (ledger.perform operation).2 := by
  have hnamed : ∀ id, .cancel id ∈ past ++ [operation] → id ≤ ledger.length := by
    intro id hid
    obtain hid | hid := List.mem_append.mp hid
    · exact h.named id hid
    · exact hknown id (List.mem_singleton.mp hid).symm
  cases operation with
  | schedule delay job =>
    refine ⟨fun id hid => ?_, fun e he => ?_⟩
    · exact (hnamed id hid).trans (by simp [Ledger.perform])
    · obtain he | he := List.mem_append.mp he
      · simpa using h.cancelled e he
      · -- the handle is new, so the past does not name it
        obtain rfl := List.mem_singleton.mp he
        simpa using fun hid => (h.named _ hid).not_gt (Nat.lt_succ_self _)
  | cancel id =>
    refine ⟨fun id hid => (hnamed id hid).trans_eq (List.length_map _).symm, fun e he => ?_⟩
    obtain ⟨e, hmem, rfl⟩ := List.mem_map.mp he
    rw [Entry.mark_cancelled, Entry.mark_fate, Entry.mark_id, Bool.or_eq_true, h.cancelled e hmem]
    simp only [decide_eq_true_eq, List.mem_append, List.mem_singleton, Operation.cancel.injEq]
    tauto
  | cancelAll =>
    refine ⟨fun id hid => (hnamed id hid).trans_eq (List.length_map _).symm, fun e he => ?_⟩
    obtain ⟨e, hmem, rfl⟩ := List.mem_map.mp he
    by_cases hwaits : e.fate = .waiting
    · simp [Entry.drop_of_waits hwaits]
    · rw [Entry.drop_of_settled hwaits]
      simpa using h.cancelled e hmem
  | next =>
    refine ⟨fun id hid => (hnamed id hid).trans_eq (length_takeOldest ledger).symm, fun e he => ?_⟩
    obtain ⟨e', he', hid, hcancelled, hdropped⟩ := exists_of_mem_takeOldest he
    rw [← hid, ← hcancelled, ← hdropped]
    simpa using h.cancelled e' he'

end Ledger

/-! ## What a ledger told -/

theorem filterMap_concat {β γ : Type} (f : β → Option γ) (xs : List β) (x : β) :
    (xs ++ [x]).filterMap f = xs.filterMap f ++ (f x).toList := by
  rw [List.filterMap_append]
  cases hx : f x <;> simp [hx]

namespace Ledger

/-- Jobs are never forgotten. -/
theorem perform_jobs (ledger : Ledger α) (operation : Operation α) :
    (ledger.perform operation).2.map Entry.job =
      ledger.map Entry.job ++ operation.job?.toList := by
  cases operation with
  | schedule delay job => exact List.map_append
  | cancel id => simp [perform, Operation.job?, Function.comp_def]
  | cancelAll => simp [perform, Operation.job?, Function.comp_def]
  | next => simp [perform, Operation.job?, map_job_takeOldest]

/-- **The answers of a ledger**: the handles it gave out, the jobs it returned and the number of
those it dropped. -/
structure Told (told : List (Answer α)) (ledger : Ledger α) : Prop where
  handles : told.filterMap Answer.handle? = List.range' 1 ledger.length
  returned : told.filterMap Answer.job? = (ledger.of .returned).map Entry.job
  dropped : (told.map Answer.count).sum = (ledger.of .dropped).length

/-- An answer is told of what an operation adds to the ledger. -/
theorem Told.append {answer : Answer α} {ledger' : Ledger α} (h : Told told ledger)
    (hhandle : List.range' 1 ledger'.length =
      List.range' 1 ledger.length ++ answer.handle?.toList)
    (hjob : (ledger'.of .returned).map Entry.job =
      (ledger.of .returned).map Entry.job ++ answer.job?.toList)
    (hcount : (ledger'.of .dropped).length = (ledger.of .dropped).length + answer.count) :
    Told (told ++ [answer]) ledger' where
  handles := by
    rw [filterMap_concat, h.handles, hhandle]
  returned := by
    rw [filterMap_concat, h.returned, hjob]
  dropped := by
    rw [List.map_append, List.sum_append, h.dropped, hcount]
    simp

/-- What is told stays the account of the ledger, for the oldest job that waits was scheduled behind
all that are settled. -/
theorem Told.perform (h : Told told (settled ++ waiting))
    (hsettled : ∀ e ∈ settled, e.fate ≠ .waiting) (hwaits : ∀ e ∈ waiting, e.fate = .waiting)
    (operation : Operation α) :
    Told (told ++ [(Ledger.perform (settled ++ waiting) operation).1])
      (Ledger.perform (settled ++ waiting) operation).2 := by
  cases operation with
  | schedule delay job =>
    refine h.append ?_ ?_ ?_
    · have hlength (e : Entry α) :
          (settled ++ waiting ++ [e]).length = (settled ++ waiting).length + 1 :=
        List.length_append
      rw [Ledger.perform, hlength, List.range'_1_concat, Nat.add_comm 1]
      rfl
    · simp [Ledger.perform, of, Answer.job?]
    · simp [Ledger.perform, of, Answer.count]
  | cancel id =>
    refine h.append ?_ ?_ ?_
    · simp [Ledger.perform, Answer.handle?]
    · rw [Ledger.perform, of_map_mark, List.map_map]
      exact (List.map_congr_left fun e _ => Entry.mark_job id e).trans (List.append_nil _).symm
    · rw [Ledger.perform, of_map_mark, List.length_map]
      rfl
  | cancelAll =>
    refine h.append ?_ ?_ ?_
    · simp [Ledger.perform, Answer.handle?]
    · rw [Ledger.perform, of_returned_map_drop]
      exact (List.append_nil _).symm
    · exact length_of_dropped_map_drop _
  | next =>
    rw [Ledger.perform, of_waiting_append hsettled hwaits, takeOldest_append hsettled]
    cases waiting with
    | nil => exact h.append (List.append_nil _).symm (List.append_nil _).symm rfl
    | cons e rest =>
      obtain ⟨he, hrest⟩ := List.forall_mem_cons.mp hwaits
      have hreturned : of rest .returned = [] := of_eq_nil fun e he => by simp [hrest e he]
      -- behind the oldest there is none that came back before it
      rw [takeOldest, if_pos he]
      refine h.append ?_ ?_ ?_
      · simp [Answer.handle?]
      · rw [of_append, of_append, of_cons_of_eq rfl, of_cons_of_ne (by simp [he]), hreturned]
        simp [Answer.job?]
      · simp [of, he, Answer.count]

end Ledger

end Scheduler
end Workbench
