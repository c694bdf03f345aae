import Workbench.Text.Basic

/-!
# Text/Offset — places in a text, counted in bytes of UTF-8

An offset that falls inside a character stands for the start of that character, and one beyond
the text for its end.  `splitBytes` cuts there, `floorBoundary` says where that is, and
`bytes_splitBytes` that the two agree.
-/

namespace Workbench.Text

/-- The length of a text in bytes. -/
def bytes : Text → Nat
  | [] => 0
  | c :: t => c.utf8Size + bytes t

@[simp] theorem bytes_append (s t : Text) : bytes (s ++ t) = bytes s + bytes t := by
  induction s with
  | nil => simp [bytes]
  | cons c s ih => simp [bytes, ih, Nat.add_assoc]

/-- The two parts of a text around an offset, which is moved back to the start of a character. -/
def splitBytes : Text → Nat → Text × Text
  | [], _ => ([], [])
  | c :: t, offset =>
    if c.utf8Size ≤ offset then
      let (before, after) := splitBytes t (offset - c.utf8Size)
      (c :: before, after)
    else ([], c :: t)

@[simp] theorem splitBytes_append (t : Text) (offset : Nat) :
    (splitBytes t offset).1 ++ (splitBytes t offset).2 = t := by
  induction t generalizing offset with
  | nil => rfl
  | cons c t ih =>
    rw [splitBytes]
    split <;> simp [ih]

/-- A text is cut behind its first part. -/
theorem splitBytes_bytes (s t : Text) : splitBytes (s ++ t) (bytes s) = (s, t) := by
  induction s with
  | nil =>
    cases t with
    | nil => rfl
    | cons c t => exact if_neg (Nat.not_le.mpr (Char.utf8Size_pos c))
  | cons c s ih =>
    rw [List.cons_append, bytes, splitBytes, if_pos (Nat.le_add_right _ _), Nat.add_sub_cancel_left, ih]

/-- The greatest offset not above the given one at which a character starts or the text ends. -/
def floorBoundary : Text → Nat → Nat
  | [], _ => 0
  | c :: t, offset =>
    if c.utf8Size ≤ offset then c.utf8Size + floorBoundary t (offset - c.utf8Size) else 0

/-- **The cut is at the boundary.** -/
theorem bytes_splitBytes (t : Text) (offset : Nat) :
    bytes (splitBytes t offset).1 = floorBoundary t offset := by
  induction t generalizing offset with
  | nil => rfl
  | cons c t ih =>
    rw [splitBytes, floorBoundary]
    split
    · simp [bytes, ih]
    · rfl

theorem floorBoundary_le (t : Text) (offset : Nat) : floorBoundary t offset ≤ offset := by
  induction t generalizing offset with
  | nil => exact Nat.zero_le _
  | cons c t ih =>
    rw [floorBoundary]
    split
    · have := ih (offset - c.utf8Size)
      omega
    · exact Nat.zero_le _

/-- The text between two offsets. -/
def slice (t : Text) (start stop : Nat) : Text :=
  (splitBytes (splitBytes t start).2 (stop - start)).1

end Workbench.Text
