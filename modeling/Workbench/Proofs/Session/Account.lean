import Workbench.Proofs.Session.Ledger

/-!
# Proofs/Session/Account — a scheduler keeps the part of its ledger that waits

The queue of a scheduler is no more than the entries of its ledger that wait (`Books`), and these
are the last ones, since the oldest is always returned first.  So a scheduler answers every
operation as its ledger does (`Books.perform`), and the ledger of a run is the account of it
(`keeps_ledger`).  A handle whose job waits no longer is stale: to cancel it makes no difference to
anything but its own mark (`Alike.inTurn`).
-/

namespace Workbench.Scheduler

variable {α : Type} {s s' : Scheduler α} {settled waiting ledger : Ledger α} {e : Entry α}
variable {past : List (Operation α)} {told : List (Answer α)} {operation : Operation α} {id : Nat}

/-! ## A scheduler and its ledger -/

/-- **The books of a scheduler**: its ledger, of which it holds the part that waits. -/
structure Books (s : Scheduler α) (settled waiting : Ledger α) : Prop where
  isSettled : ∀ e ∈ settled, e.fate ≠ .waiting
  waits : ∀ e ∈ waiting, e.fate = .waiting
  /-- Handles are the numbers from 1 on. -/
  ids : (settled ++ waiting).map Entry.id = List.range' 1 s.issued
  numbered : s.Numbered
  cancelled : ∀ e ∈ settled ++ waiting, s.isCancelled e.id = e.cancelled
  queue : s.queue.map (fun task => (task.id, task.job)) = waiting.map fun e => (e.id, e.job)

theorem Books.new : Books ({} : Scheduler α) [] [] where
  isSettled := nofun
  waits := nofun
  ids := rfl
  numbered := .new
  cancelled := nofun
  queue := rfl

namespace Books

section

variable (h : Books s settled waiting)

include h

/-- There is one entry for each handle that was given out. -/
theorem length_eq : (settled ++ waiting).length = s.issued := by
  rw [← List.length_map Entry.id, h.ids, List.length_range']

theorem of_waiting : Ledger.of (settled ++ waiting) .waiting = waiting :=
  Ledger.of_waiting_append h.isSettled h.waits

theorem pending_eq : s.pending = waiting.length := by
  have hlength := congrArg List.length h.queue
  rwa [List.length_map, List.length_map] at hlength

/-- The queue holds the handles of what waits, in order. -/
theorem queue_ids : s.queue.map Task.id = waiting.map Entry.id := by
  have hids := congrArg (List.map Prod.fst) h.queue
  rwa [List.map_map, List.map_map] at hids

theorem id_le (he : e ∈ settled ++ waiting) : e.id ≤ s.issued := by
  have hid : e.id ∈ List.range' 1 s.issued := h.ids ▸ List.mem_map_of_mem he
  have := List.mem_range'_1.mp hid
  omega

/-- No handle is given out twice. -/
theorem ids_nodup : (settled.map Entry.id ++ waiting.map Entry.id).Nodup := by
  rw [← List.map_append, h.ids]
  exact List.nodup_range'

/-- The handle of a settled job is not that of one that waits. -/
theorem id_notMem (he : e ∈ settled) : e.id ∉ s.queue.map Task.id := by
  rw [h.queue_ids]
  exact List.disjoint_of_nodup_append h.ids_nodup (List.mem_map_of_mem he)

/-- A new job waits behind all others. -/
theorem schedule (delay : Nat) (job : α) :
    Books (s.schedule delay job).2 settled (waiting ++ [{ id := s.issued + 1, job }]) where
  isSettled := h.isSettled
  waits e he := by
    obtain he | he := List.mem_append.mp he
    · exact h.waits e he
    · rw [List.mem_singleton.mp he]
  ids := by
    rw [← List.append_assoc, List.map_append, h.ids, Scheduler.schedule, List.range'_1_concat,
      Nat.add_comm 1]
    rfl
  numbered := h.numbered.schedule delay job
  cancelled e he := by
    rw [← List.append_assoc] at he
    obtain he | he := List.mem_append.mp he
    · exact h.cancelled e he
    · obtain rfl := List.mem_singleton.mp he
      exact h.numbered.isCancelled_succ_issued
  queue := by
    simp [Scheduler.schedule, h.queue]

/-- A cancellation marks the entry of its handle, whatever has become of its job. -/
theorem cancel (hid : id ≤ s.issued) :
    Books (s.cancel id) (settled.map (Entry.mark id)) (waiting.map (Entry.mark id)) where
  isSettled := by
    simpa using h.isSettled
  waits := by
    simpa using h.waits
  ids := by
    rw [← List.map_append, List.map_map]
    exact (List.map_congr_left fun e _ => Entry.mark_id id e).trans h.ids
  numbered := h.numbered.cancel hid
  cancelled e he := by
    rw [← List.map_append] at he
    obtain ⟨e, hmem, rfl⟩ := List.mem_map.mp he
    rw [isCancelled_cancel, Entry.mark_id, h.cancelled e hmem, Entry.mark_cancelled]
  queue := by
    rw [List.map_map]
    exact h.queue.trans (List.map_congr_left fun e _ => by simp)

/-- Cancelling all settles whatever waits. -/
theorem cancelAll : Books s.cancelAll.2 (settled ++ waiting.map Entry.drop) [] where
  isSettled := by
    have hdrop : ∀ e ∈ waiting, e.drop.fate ≠ .waiting := fun e he => by
      simp [Entry.drop_of_waits (h.waits e he)]
    simpa [or_imp, forall_and] using ⟨h.isSettled, hdrop⟩
  waits := nofun
  ids := by
    have hdrop : (waiting.map Entry.drop).map Entry.id = waiting.map Entry.id := by
      rw [List.map_map]
      exact List.map_congr_left fun e he => by simp [Entry.drop_of_waits (h.waits e he)]
    rw [List.append_nil, List.map_append, hdrop, ← List.map_append]
    exact h.ids
  numbered := h.numbered.cancelAll
  cancelled e he := by
    rw [isCancelled_cancelAll, h.queue_ids]
    obtain he | he := List.mem_append.mp (List.append_nil _ ▸ he)
    · -- a settled job keeps its mark, for its handle is none of those that are dropped
      have hnotMem := h.queue_ids ▸ h.id_notMem he
      rw [decide_eq_false hnotMem, Bool.false_or, h.cancelled e (List.mem_append_left _ he)]
    · obtain ⟨e, hmem, rfl⟩ := List.mem_map.mp he
      rw [Entry.drop_of_waits (h.waits e hmem), decide_eq_true (List.mem_map_of_mem hmem),
        Bool.true_or]
  queue := rfl

/-- If nothing waits, nothing comes back. -/
theorem next_nil (hwaiting : waiting = []) : s.next = (none, s) := by
  have hqueue : s.queue = [] := List.map_eq_nil_iff.mp (by rw [h.queue, hwaiting, List.map_nil])
  rw [next, hqueue]

end

/-- The oldest entry that waits is returned, and nothing else changes. -/
theorem next_cons {rest : Ledger α} (h : Books s settled (e :: rest)) :
    s.next.1 = some e.fired ∧ Books s.next.2 (settled ++ [{ e with fate := .returned }]) rest := by
  obtain ⟨task, tasks, hqueue, htask, htasks⟩ := List.map_eq_cons_iff.mp h.queue
  obtain ⟨hid, hjob⟩ := Prod.mk.inj htask
  have hnext : s.next = (some e.fired, { s with queue := tasks }) := by
    simp only [next, hqueue, hid, hjob, h.cancelled e (by simp), Entry.fired]
  have hnumbered := h.numbered.next
  rw [hnext] at hnumbered ⊢
  refine ⟨rfl, ?_, fun e' he' => h.waits e' (List.mem_cons_of_mem _ he'), ?_, hnumbered, ?_,
    htasks⟩
  · simpa [or_imp, forall_and] using h.isSettled
  · simpa using h.ids
  · intro e' he'
    have hcancelled := h.cancelled
    simp only [List.append_assoc, List.cons_append, List.nil_append, List.mem_append,
      List.mem_cons] at he' hcancelled
    obtain he' | rfl | he' := he'
    · exact hcancelled e' (.inl he')
    · exact hcancelled e (.inr (.inl rfl))
    · exact hcancelled e' (.inr (.inr he'))

/-- **A scheduler answers as its ledger does**, and stays the part of it that waits. -/
theorem perform (h : Books s settled waiting)
    (hknown : ∀ id, operation = .cancel id → id ≤ s.issued) :
    ∃ settled' waiting', Ledger.perform (settled ++ waiting) operation =
        ((s.perform operation).1, settled' ++ waiting') ∧
      Books (s.perform operation).2 settled' waiting' := by
  cases operation with
  | schedule delay job =>
    refine ⟨settled, _, ?_, h.schedule delay job⟩
    rw [Ledger.perform, h.length_eq, List.append_assoc]
    rfl
  | cancel id =>
    refine ⟨_, _, ?_, h.cancel (hknown id rfl)⟩
    rw [Ledger.perform, List.map_append]
    rfl
  | cancelAll =>
    refine ⟨_, [], ?_, h.cancelAll⟩
    have hsettled : settled.map Entry.drop = settled :=
      (List.map_congr_left fun e he => Entry.drop_of_settled (h.isSettled e he)).trans
        (List.map_id _)
    rw [Ledger.perform, h.of_waiting, ← h.pending_eq, List.map_append, hsettled, List.append_nil]
    rfl
  | next =>
    rw [Ledger.perform, h.of_waiting, Ledger.takeOldest_append h.isSettled]
    cases waiting with
    | nil =>
      refine ⟨settled, [], ?_, ?_⟩
      · rw [Scheduler.perform, h.next_nil rfl]
        rfl
      · rwa [Scheduler.perform, h.next_nil rfl]
    | cons e rest =>
      obtain ⟨hfired, hbooks⟩ := h.next_cons
      refine ⟨_, rest, ?_, hbooks⟩
      rw [Ledger.takeOldest, if_pos (h.waits e List.mem_cons_self), Scheduler.perform, hfired,
        List.append_assoc]
      rfl

end Books

/-! ## Runs -/

/-- **Where a run stands**: its ledger, and what it was told. -/
structure Stands (past : List (Operation α)) (told : List (Answer α)) (ledger : Ledger α)
    (s : Scheduler α) : Prop where
  books : ∃ settled waiting, ledger = settled ++ waiting ∧ Books s settled waiting
  jobs : ledger.map Entry.job = past.filterMap Operation.job?
  marked : ledger.Marked past
  told : ledger.Told told

theorem Stands.new : Stands [] [] [] ({} : Scheduler α) where
  books := ⟨[], [], rfl, Books.new⟩
  jobs := rfl
  marked := ⟨nofun, nofun⟩
  told := ⟨rfl, rfl, rfl⟩

/-- **One operation** is answered as the ledger answers it, and the ledger goes along. -/
theorem Stands.perform (h : Stands past told ledger s)
    (hknown : ∀ id, operation = .cancel id → id ≤ s.issued) :
    (s.perform operation).1 = (ledger.perform operation).1 ∧
      Stands (past ++ [operation]) (told ++ [(s.perform operation).1])
        (ledger.perform operation).2 (s.perform operation).2 := by
  obtain ⟨⟨settled, waiting, rfl, hbooks⟩, hjobs, hmarked, htold⟩ := h
  obtain ⟨settled', waiting', hperform, hbooks'⟩ := hbooks.perform hknown
  have hanswer := congrArg Prod.fst hperform
  have hledger := congrArg Prod.snd hperform
  refine ⟨hanswer.symm, ⟨settled', waiting', hledger, hbooks'⟩, ?_, ?_, ?_⟩
  · rw [Ledger.perform_jobs, filterMap_concat, hjobs]
  · exact hmarked.perform fun id hid => (hknown id hid).trans_eq hbooks.length_eq.symm
  · exact hanswer ▸ htold.perform hbooks.isSettled hbooks.waits operation

/-- What is known to a run is known at each of its operations. -/
theorem Known.head_tail {operations : List (Operation α)}
    (h : Known s.issued (operation :: operations)) :
    (∀ id, operation = .cancel id → id ≤ s.issued) ∧
      Known (s.perform operation).2.issued operations := by
  cases operation with
  | schedule delay job => exact ⟨nofun, h⟩
  | cancel id => exact ⟨fun _ hid => Operation.cancel.inj hid ▸ h.1, h.2⟩
  | cancelAll => exact ⟨nofun, h⟩
  | next =>
    refine ⟨nofun, ?_⟩
    rw [perform, next]
    split <;> exact h

/-- **A run stands** by its ledger at its end, and was answered as the ledger answers. -/
theorem Stands.inTurn {operations : List (Operation α)} (h : Stands past told ledger s)
    (hknown : Known s.issued operations) :
    (Scheduler.inTurn Scheduler.perform s operations).1 =
        (Scheduler.inTurn Ledger.perform ledger operations).1 ∧
      Stands (past ++ operations) (told ++ (Scheduler.inTurn Scheduler.perform s operations).1)
        (Scheduler.inTurn Ledger.perform ledger operations).2
        (Scheduler.inTurn Scheduler.perform s operations).2 := by
  induction operations generalizing past told ledger s with
  | nil =>
    refine ⟨rfl, ?_⟩
    rwa [List.append_nil, Scheduler.inTurn, List.append_nil]
  | cons operation operations ih =>
    obtain ⟨hhead, htail⟩ := hknown.head_tail
    obtain ⟨hanswer, hnext⟩ := h.perform hhead
    obtain ⟨hanswers, hrest⟩ := ih hnext htail
    refine ⟨congrArg₂ List.cons hanswer hanswers, ?_⟩
    rwa [List.append_assoc, List.append_assoc] at hrest

/-! ## Stale handles -/

/-- **Alike but for the mark of a handle** under which no job waits. -/
structure Alike (id : Nat) (s s' : Scheduler α) : Prop where
  issued : s'.issued = s.issued
  queue : s'.queue = s.queue
  isCancelled : ∀ other, other ≠ id → s'.isCancelled other = s.isCancelled other
  stale : id ≤ s.issued ∧ id ∉ s.queue.map Task.id

/-- Cancelling a handle whose job is settled changes no more than its mark. -/
theorem Books.alike_cancel (h : Books s settled waiting) (he : e ∈ settled) :
    Alike e.id s (s.cancel e.id) where
  issued := rfl
  queue := rfl
  isCancelled other hother := by
    rw [isCancelled_cancel, decide_eq_false hother, Bool.false_or]
  stale := ⟨h.id_le (List.mem_append_left _ he), h.id_notMem he⟩

/-- Schedulers that differ in a stale mark alone answer alike, and still differ in no more. -/
theorem Alike.perform (h : Alike id s s') (operation : Operation α) :
    (s'.perform operation).1 = (s.perform operation).1 ∧
      Alike id (s.perform operation).2 (s'.perform operation).2 := by
  obtain ⟨hissued, hqueue, hcancelled, hle, hnotMem⟩ := h
  cases operation with
  | schedule delay job =>
    refine ⟨congrArg (fun n => Answer.handle (n + 1)) hissued, ?_, ?_, hcancelled, ?_⟩
    · exact congrArg (· + 1) hissued
    · simp only [Scheduler.perform, schedule, hissued, hqueue]
    · have hne : id ≠ s.issued + 1 := by omega
      exact ⟨Nat.le_succ_of_le hle, by simpa [Scheduler.perform, schedule, hne] using hnotMem⟩
  | cancel handle =>
    refine ⟨rfl, hissued, hqueue, fun other hother => ?_, hle, hnotMem⟩
    rw [Scheduler.perform, Scheduler.perform, isCancelled_cancel, isCancelled_cancel,
      hcancelled other hother]
  | cancelAll =>
    refine ⟨?_, hissued, rfl, fun other hother => ?_, hle, List.not_mem_nil⟩
    · exact congrArg (fun queue => Answer.dropped (List.length queue)) hqueue
    · rw [Scheduler.perform, Scheduler.perform, isCancelled_cancelAll, isCancelled_cancelAll,
        hqueue, hcancelled other hother]
  | next =>
    rw [Scheduler.perform, Scheduler.perform, next, next, hqueue]
    cases hs : s.queue with
    | nil => exact ⟨rfl, hissued, hqueue, hcancelled, hle, hnotMem⟩
    | cons task rest =>
      -- the oldest job has another handle, so it comes out the same
      rw [hs, List.map_cons, List.mem_cons, not_or] at hnotMem
      have htask : s'.isCancelled task.id = s.isCancelled task.id :=
        hcancelled task.id (Ne.symm hnotMem.1)
      refine ⟨?_, hissued, rfl, hcancelled, hle, hnotMem.2⟩
      simp only [htask]

/-- **Schedulers that are alike** answer alike from there on. -/
theorem Alike.inTurn (h : Alike id s s') (operations : List (Operation α)) :
    (Scheduler.inTurn Scheduler.perform s' operations).1 =
        (Scheduler.inTurn Scheduler.perform s operations).1 ∧
      Alike id (Scheduler.inTurn Scheduler.perform s operations).2
        (Scheduler.inTurn Scheduler.perform s' operations).2 := by
  induction operations generalizing s s' with
  | nil => exact ⟨rfl, h⟩
  | cons operation operations ih =>
    obtain ⟨hanswer, hnext⟩ := h.perform operation
    obtain ⟨hanswers, hrest⟩ := ih hnext
    exact ⟨congrArg₂ List.cons hanswer hanswers, hrest⟩

/-! ## The account of a run -/

/-- **The account of a run**: what it was told and what its scheduler holds, by its ledger. -/
structure Account (operations : List (Operation α)) (told : List (Answer α)) (ledger : Ledger α)
    (s : Scheduler α) : Prop where
  /-- There is an entry for every job, in the order in which they were scheduled, -/
  jobs : ledger.map Entry.job = operations.filterMap Operation.job?
  /-- under the handles 1, 2, 3, …, -/
  ids : ledger.map Entry.id = List.range' 1 ledger.length
  /-- and these are what was answered. -/
  handles : told.filterMap Answer.handle? = List.range' 1 ledger.length
  /-- Jobs come back in that order too, each of them once. -/
  returned : told.filterMap Answer.job? = (ledger.of .returned).map Entry.job
  dropped : (told.map Answer.count).sum = (ledger.of .dropped).length
  queue : s.queue.map (fun task => (task.id, task.job)) =
    (ledger.of .waiting).map fun e => (e.id, e.job)
  pending : s.pending =
    ledger.length - (ledger.of .returned).length - (ledger.of .dropped).length
  isCancelled : ∀ e ∈ ledger,
    s.isCancelled e.id = true ↔ e.fate = .dropped ∨ .cancel e.id ∈ operations
  /-- The oldest job comes back due, unless its own handle was cancelled. -/
  next : ∀ e ∈ (ledger.of .waiting).head?,
    (s.next.1 = some (.due e.job) ↔ .cancel e.id ∉ operations) ∧
      (s.next.1 = some (.cancelled e.job) ↔ .cancel e.id ∈ operations)
  next_none : s.next.1 = none ↔ ledger.of .waiting = []
  /-- Just what waits is dropped and cancelled. -/
  cancelAll : s.cancelAll.1 = s.pending ∧ ∀ id, s.cancelAll.2.isCancelled id = true ↔
    s.isCancelled id = true ∨ id ∈ (ledger.of .waiting).map Entry.id
  /-- The handle of a job that came back or was dropped bears on no other job. -/
  stale : ∀ e ∈ ledger, e.fate ≠ .waiting → ∀ later : List (Operation α),
    (inTurn perform (s.cancel e.id) later).1 = (inTurn perform s later).1 ∧
    (inTurn perform (s.cancel e.id) later).2.queue = (inTurn perform s later).2.queue ∧
    ∀ id, id ≠ e.id → (inTurn perform (s.cancel e.id) later).2.isCancelled id =
      (inTurn perform s later).2.isCancelled id

namespace Stands

section

variable (h : Stands past told ledger s)

include h

/-- A mark says that its job was dropped or that its handle was cancelled. -/
theorem isCancelled_iff (he : e ∈ ledger) :
    s.isCancelled e.id = true ↔ e.fate = .dropped ∨ .cancel e.id ∈ past := by
  obtain ⟨⟨settled, waiting, rfl, hbooks⟩, -, hmarked, -⟩ := h
  rw [hbooks.cancelled e he]
  exact hmarked.cancelled e he

/-- What comes back is the oldest job that waits. -/
theorem next_eq : s.next.1 = (ledger.of .waiting).head?.map Entry.fired := by
  obtain ⟨⟨settled, waiting, rfl, hbooks⟩, -, -, -⟩ := h
  rw [hbooks.of_waiting]
  cases waiting with
  | nil => rw [hbooks.next_nil rfl]; rfl
  | cons e rest => exact hbooks.next_cons.1

/-- The oldest job comes back due, unless the past names its handle. -/
theorem next_iff (he : e ∈ (ledger.of .waiting).head?) :
    (s.next.1 = some (.due e.job) ↔ .cancel e.id ∉ past) ∧
      (s.next.1 = some (.cancelled e.job) ↔ .cancel e.id ∈ past) := by
  obtain ⟨hmem, hwaits⟩ := List.mem_filter.mp (List.mem_of_mem_head? he)
  have hfate : e.fate = .waiting := of_decide_eq_true hwaits
  have hmark : e.cancelled = true ↔ .cancel e.id ∈ past := by
    simpa [hfate] using h.marked.cancelled e hmem
  have hnext : s.next.1 = some e.fired := by
    rw [h.next_eq, he]
    rfl
  rw [hnext, ← hmark]
  cases hcancelled : e.cancelled <;> simp [Entry.fired, hcancelled]

theorem alike_cancel (he : e ∈ ledger) (hfate : e.fate ≠ .waiting) :
    Alike e.id s (s.cancel e.id) := by
  obtain ⟨settled, waiting, rfl, hbooks⟩ := h.books
  refine hbooks.alike_cancel ?_
  exact (List.mem_append.mp he).resolve_right fun hmem => hfate (hbooks.waits e hmem)

/-- **The account of a run**, read off its ledger. -/
theorem account : Account past told ledger s := by
  obtain ⟨settled, waiting, hledger, hbooks⟩ := h.books
  have hwaiting : ledger.of .waiting = waiting := hledger ▸ hbooks.of_waiting
  exact {
    jobs := h.jobs
    ids := by
      rw [hledger, hbooks.ids, hbooks.length_eq]
    handles := h.told.handles
    returned := h.told.returned
    dropped := h.told.dropped
    queue := hwaiting ▸ hbooks.queue
    pending := by
      have hlength := ledger.length_eq
      rw [hbooks.pending_eq, ← hwaiting]
      omega
    isCancelled := fun e he => h.isCancelled_iff he
    next := fun e he => h.next_iff he
    next_none := by
      rw [h.next_eq, Option.map_eq_none_iff, List.head?_eq_none_iff]
    cancelAll := by
      refine ⟨rfl, fun id => ?_⟩
      rw [isCancelled_cancelAll, hbooks.queue_ids, hwaiting, Bool.or_eq_true, decide_eq_true_iff,
        or_comm]
    stale := fun e he hfate later => by
      obtain ⟨hanswers, halike⟩ := (h.alike_cancel he hfate).inTurn later
      exact ⟨hanswers, halike.queue, halike.isCancelled⟩ }

end

end Stands

/-- **A scheduler keeps a ledger**: whatever is done to it, it answers as the ledger of its jobs
does, and the ledger is the account of what became of each of them. -/
theorem keeps_ledger (operations : List (Operation α)) (hknown : Known 0 operations) :
    (inTurn perform ({} : Scheduler α) operations).1 = (inTurn Ledger.perform [] operations).1 ∧
      Account operations (inTurn perform ({} : Scheduler α) operations).1
        (inTurn Ledger.perform [] operations).2
        (inTurn perform ({} : Scheduler α) operations).2 := by
  obtain ⟨hanswers, hstands⟩ := Stands.new.inTurn hknown
  exact ⟨hanswers, hstands.account⟩

/-- A job is cancelled, one comes back, its handle is cancelled after that, and the last is
dropped. -/
theorem keeps_ledger_of_stale_cancel :
    let operations : List (Operation Char) := [.schedule 9 'a', .cancel 1, .schedule 0 'b', .next,
      .next, .cancel 2, .schedule 4 'c', .cancelAll, .cancel 3]
    Known 0 operations ∧
      (inTurn perform {} operations).1 = [.handle 1, .cancelled, .handle 2,
        .fired (some (.cancelled 'a')), .fired (some (.due 'b')), .cancelled, .handle 3, .dropped 1,
        .cancelled] ∧
      (inTurn perform {} operations).1 = (inTurn Ledger.perform [] operations).1 ∧
      Account operations (inTurn perform {} operations).1 (inTurn Ledger.perform [] operations).2
        (inTurn perform {} operations).2 := by
  intro operations
  have hknown : Known 0 operations := by
    simp [operations, Known]
  exact ⟨hknown, by decide, keeps_ledger operations hknown⟩

end Workbench.Scheduler
