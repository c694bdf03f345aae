import Workbench.Proofs.Highlight.Slice
import Workbench.Proofs.Session.Meter

/-!
# Proofs/Session/Caret — where an indent goes, and the caret with it

Offsets come from outside and may be any numbers.  Moved back to a boundary they are monotone
(`Text.monotone_floorBoundary`), so the place where an indent ends is never before the one where it
begins, whatever the order of the two offsets.  An insertion that checks each of its steps
(`Bench.insertIndent?`) thus always comes to an end, and it is the insertion as it is
(`Bench.insertIndent?_eq`).  The caret goes behind the indent, and an edit moves it back to a
boundary of the new source, so it stands on one in every session (`Session.caret_stands`).
-/

namespace Workbench

open Highlight (IsBoundary isBoundary_bytes isBoundary_iff isBoundary_zero slice?
  slice?_eq_some_iff slice_bytes splitBytes_offsetAt)
open Text (bytes bytes_append bytes_splitBytes floorBoundary floorBoundary_le floorBoundary_le_bytes
  slice splitBytes splitBytes_append splitBytes_bytes)

/-! ## Boundaries -/

namespace Text

/-- Offsets stay in order when they are moved back to boundaries. -/
theorem monotone_floorBoundary (source : Text) : Monotone (floorBoundary source) := by
  intro j k h
  induction source generalizing j k with
  | nil => exact le_rfl
  | cons c t ih =>
    rw [floorBoundary, floorBoundary]
    split
    · rw [if_pos (by omega)]
      exact Nat.add_le_add_left (ih (Nat.sub_le_sub_right h _)) _
    · exact Nat.zero_le _

/-- A text is cut where its boundary is. -/
theorem splitBytes_floorBoundary (source : Text) (offset : Nat) :
    splitBytes source (floorBoundary source offset) = splitBytes source offset := by
  have h := splitBytes_bytes (splitBytes source offset).1 (splitBytes source offset).2
  rwa [splitBytes_append, bytes_splitBytes] at h

theorem isBoundary_floorBoundary (source : Text) (offset : Nat) :
    IsBoundary source (floorBoundary source offset) := by
  rw [isBoundary_iff, ← bytes_splitBytes, splitBytes_floorBoundary, bytes_splitBytes]

/-- **The boundary of an offset** is the greatest one that is not above it. -/
theorem isGreatest_floorBoundary (source : Text) (offset : Nat) :
    IsGreatest {k | IsBoundary source k ∧ k ≤ offset} (floorBoundary source offset) := by
  refine ⟨⟨isBoundary_floorBoundary source offset, floorBoundary_le source offset⟩, ?_⟩
  rintro k ⟨hk, hle⟩
  rw [← isBoundary_iff.mp hk]
  exact monotone_floorBoundary source hle

/-- An offset beyond the end stands for the end. -/
theorem floorBoundary_min (source : Text) (offset : Nat) :
    floorBoundary source (min offset (bytes source)) = floorBoundary source offset := by
  rw [(monotone_floorBoundary source).map_min, isBoundary_iff.mp (isBoundary_bytes source),
    min_eq_left (floorBoundary_le_bytes source offset)]

/-- It makes no difference whether the later offset is moved behind the earlier one or behind the
boundary of that. -/
theorem floorBoundary_max (source : Text) (start stop : Nat) :
    floorBoundary source (max (floorBoundary source start) (min stop (bytes source))) =
      floorBoundary source (max start stop) := by
  rw [(monotone_floorBoundary source).map_max, (monotone_floorBoundary source).map_max,
    floorBoundary_min, isBoundary_iff.mp (isBoundary_floorBoundary source start)]

/-- The nearest boundary that is not above an offset, looked for byte by byte.  There is no answer
if there is none. -/
def stepBack? (source : Text) : Nat → Option Nat
  | 0 => if IsBoundary source 0 then some 0 else none
  | k + 1 => if IsBoundary source (k + 1) then some (k + 1) else stepBack? source k

/-- **Stepping back** comes to the boundary before it runs out of bytes. -/
theorem stepBack?_eq (source : Text) (offset : Nat) :
    stepBack? source offset = some (floorBoundary source offset) := by
  induction offset with
  | zero =>
    rw [stepBack?, if_pos (isBoundary_zero source), isBoundary_iff.mp (isBoundary_zero source)]
  | succ k ih =>
    rw [stepBack?]
    split
    · next h => rw [isBoundary_iff.mp h]
    · next h =>
      obtain ⟨hboundary, hle⟩ := (isGreatest_floorBoundary source (k + 1)).1
      have hbelow : floorBoundary source (k + 1) ≤ k := by
        refine Nat.le_of_lt_succ (Nat.lt_of_le_of_ne hle fun heq => h ?_)
        rwa [heq] at hboundary
      rw [ih]
      refine congrArg some ((isGreatest_floorBoundary source k).unique ⟨⟨hboundary, hbelow⟩, ?_⟩)
      rintro j ⟨hj, hjk⟩
      exact (isGreatest_floorBoundary source (k + 1)).2 ⟨hj, Nat.le_succ_of_le hjk⟩

/-! ## Slices at boundaries -/

/-- What stands before a boundary can be sliced off. -/
theorem slice?_to (source : Text) (offset : Nat) :
    slice? source 0 (floorBoundary source offset) = some (splitBytes source offset).1 := by
  refine slice?_eq_some_iff.mpr
    ⟨⟨Nat.zero_le _, isBoundary_zero source, isBoundary_floorBoundary source offset⟩, ?_⟩
  have hall : splitBytes source 0 = ([], source) := splitBytes_bytes [] source
  rw [slice, hall, Nat.sub_zero, splitBytes_floorBoundary]

/-- What stands behind a boundary can be sliced off. -/
theorem slice?_from (source : Text) (offset : Nat) :
    slice? source (floorBoundary source offset) (bytes source) =
      some (splitBytes source offset).2 := by
  refine slice?_eq_some_iff.mpr ⟨⟨floorBoundary_le_bytes source offset,
    isBoundary_floorBoundary source offset, isBoundary_bytes source⟩, ?_⟩
  obtain ⟨k, -, hk⟩ := isBoundary_floorBoundary source offset
  rw [← splitBytes_floorBoundary source offset, hk, slice_bytes, splitBytes_offsetAt]

/-- A prefix of a text ends at a boundary of it. -/
theorem isBoundary_append (before behind : Text) : IsBoundary (before ++ behind) (bytes before) := by
  rw [isBoundary_iff, ← bytes_splitBytes, splitBytes_bytes]

end Text

/-! ## Insertions -/

/-- An offset moved into a range; there is no answer for ends that are the wrong way round. -/
def clamp? (low high offset : Nat) : Option Nat :=
  if low ≤ high then some (max low (min offset high)) else none

namespace Bench

/-- An insertion that checks each of its steps. -/
def insertIndent? (b : Bench) (start stop : Nat) (indent : Text) : Option Bench := do
  let length := bytes b.source
  let first ← Text.stepBack? b.source (min start length)
  let last ← Text.stepBack? b.source (← clamp? first length stop)
  let before ← slice? b.source 0 first
  let behind ← slice? b.source last length
  return { b with source := before ++ indent ++ behind, caret := first + bytes indent }

/-- **No step of an insertion fails**, whatever the offsets. -/
theorem insertIndent?_eq (b : Bench) (start stop : Nat) (indent : Text) :
    b.insertIndent? start stop indent = some (b.insertIndent start stop indent) := by
  have hfirst : Text.stepBack? b.source (min start (bytes b.source)) =
      some (floorBoundary b.source start) := by
    rw [Text.stepBack?_eq, Text.floorBoundary_min]
  have hclamp : clamp? (floorBoundary b.source start) (bytes b.source) stop =
      some (max (floorBoundary b.source start) (min stop (bytes b.source))) :=
    if_pos (floorBoundary_le_bytes b.source start)
  have hlast : Text.stepBack? b.source
      (max (floorBoundary b.source start) (min stop (bytes b.source))) =
      some (floorBoundary b.source (max start stop)) := by
    rw [Text.stepBack?_eq, Text.floorBoundary_max]
  simp only [insertIndent?, insertIndent, hfirst, hclamp, hlast, Text.slice?_to, Text.slice?_from,
    Option.bind_eq_bind, Option.bind_some, bytes_splitBytes]
  rfl

/-- The caret is on a boundary of the source. -/
def Stands (b : Bench) : Prop := IsBoundary b.source b.caret

theorem stands_new (l : Language) : (new l).Stands := isBoundary_zero _

theorem stands_edit (b : Bench) (text : Text) : (b.edit text).Stands :=
  Text.isBoundary_floorBoundary text b.caret

/-- Behind an indent there is a boundary. -/
theorem stands_insertIndent (b : Bench) (start stop : Nat) (indent : Text) :
    (b.insertIndent start stop indent).Stands := by
  rw [Stands, insertIndent, ← bytes_append]
  exact Text.isBoundary_append _ _

end Bench

/-! ## Sessions -/

namespace Session

variable {s : Session}

/-- A run leaves source and caret as they are. -/
theorem stands_execute (h : s.bench.Stands) (document : Document) :
    (s.execute document).2.bench.Stands := by
  obtain ⟨hcaret, hsource, -⟩ := s.execute_keeps document
  rwa [Bench.Stands, hcaret, hsource]

theorem stands_fireNext (s : Session) (h : s.bench.Stands) : s.fireNext.2.bench.Stands := by
  unfold fireNext
  split
  · exact h
  · next document scheduler _ => exact stands_execute (s := { s with scheduler }) h document
  · exact h

theorem stands_requestRun (h : s.bench.Stands) : s.requestRun.2.bench.Stands := by
  unfold requestRun
  split
  · exact h
  · exact h

theorem stands_dropPending (h : s.bench.Stands) : s.dropPending.bench.Stands := by
  unfold dropPending
  dsimp only
  split
  · exact h
  · exact h

/-- **Every operation** leaves the caret on a boundary. -/
theorem stands_perform (h : s.bench.Stands) (operation : Operation) :
    (s.perform operation).bench.Stands := by
  cases operation with
  | run =>
    exact runPending_of_fireNext (P := fun s => s.bench.Stands) stands_fireNext (stands_requestRun h)
  | requestRun => exact stands_requestRun h
  | runPending => exact runPending_of_fireNext (P := fun s => s.bench.Stands) stands_fireNext h
  | cancel id => exact h
  | clear => exact stands_dropPending h
  | switchLanguage l => exact Bench.stands_new l
  | edit text => exact s.bench.stands_edit text
  | insertIndent start stop => exact s.bench.stands_insertIndent start stop _

/-- So does any list of operations. -/
theorem stands_performAll (h : s.bench.Stands) (operations : List Operation) :
    (s.performAll operations).bench.Stands := by
  induction operations generalizing s with
  | nil => exact h
  | cons operation operations ih => exact ih (stands_perform h operation)

/-- **Indents and the caret.**  An insertion never fails: it puts the indent between what stands
before the boundary of `start` and what stands behind that of `stop`, which is not before it, and the
caret behind the indent, and it changes nothing else.  So the caret of a session is within the source
and on a boundary of it, whatever was done. -/
theorem caret_stands :
    (∀ (b : Bench) (start stop : Nat) (indent : Text), ∃ first last before behind,
      IsGreatest {k | IsBoundary b.source k ∧ k ≤ min start (bytes b.source)} first ∧
      IsGreatest {k | IsBoundary b.source k ∧ k ≤ max first (min stop (bytes b.source))} last ∧
      first ≤ last ∧
      slice? b.source 0 first = some before ∧
      slice? b.source last (bytes b.source) = some behind ∧
      b.insertIndent? start stop indent = some (b.insertIndent start stop indent) ∧
      b.insertIndent start stop indent =
        { b with source := before ++ indent ++ behind, caret := first + bytes indent }) ∧
    ∀ (settings : Settings) (refusals : Refusals) (operations : List Operation),
      let s := (Session.new settings { refusals }).performAll operations
      s.bench.caret ≤ bytes s.bench.source ∧ IsBoundary s.bench.source s.bench.caret := by
  refine ⟨fun b start stop indent => ?_, fun settings refusals operations => ?_⟩
  · have hfirst := Text.isGreatest_floorBoundary b.source (min start (bytes b.source))
    have hlast := Text.isGreatest_floorBoundary b.source
      (max (floorBoundary b.source start) (min stop (bytes b.source)))
    rw [Text.floorBoundary_min] at hfirst
    rw [Text.floorBoundary_max] at hlast
    have hle : floorBoundary b.source start ≤ floorBoundary b.source (max start stop) :=
      Text.monotone_floorBoundary b.source (le_max_left start stop)
    refine ⟨_, _, _, _, hfirst, hlast, hle, Text.slice?_to _ _, Text.slice?_from _ _,
      b.insertIndent?_eq start stop indent, ?_⟩
    rw [Bench.insertIndent, bytes_splitBytes]
  · have hnew : (Session.new settings { refusals }).bench.Stands := Bench.stands_new _
    have hstands := stands_performAll hnew operations
    exact ⟨hstands.le_bytes, hstands⟩

end Session
end Workbench
