/-!
# Text/Basic — text as a list of characters, and how it is taken apart

The library reads and writes text one character at a time, so a text is a list: a scan is a
recursion on the list, and what a scan does is shown by induction on it.  Everything that leaves
the library counts in bytes of UTF-8 (`Text/Offset`).
-/

namespace Workbench

/-- A text: its characters in order. -/
abbrev Text := List Char

/-- A string literal may stand for its text. -/
instance : Coe String Text := ⟨String.toList⟩

instance Text.instLawfulBEq : LawfulBEq Text := inferInstanceAs (LawfulBEq (List Char))

namespace Text

/-! ## Marks

A *mark* is a nonempty text that is looked for. -/

/-- What follows `mark`, for a text that begins with it. -/
def dropMark? : Text → Text → Option Text
  | [], t => some t
  | _ :: _, [] => none
  | m :: mark, c :: t => if m = c then dropMark? mark t else none

theorem dropMark?_eq_some {mark t rest : Text} : dropMark? mark t = some rest ↔ t = mark ++ rest := by
  induction mark generalizing t with
  | nil => simp [dropMark?]
  | cons m mark ih =>
    cases t with
    | nil => simp [dropMark?]
    | cons c t =>
      by_cases h : m = c
      · simp [dropMark?, h, ih]
      · simp [dropMark?, h, Ne.symm h]

/-- The text before the first occurrence of `mark`, and the text behind it. -/
def cutFirst (mark : Text) : Text → Option (Text × Text)
  | [] => none
  | c :: t =>
    match dropMark? mark (c :: t) with
    | some after => some ([], after)
    | none => (cutFirst mark t).map fun (before, after) => (c :: before, after)

/-- A cut loses nothing but the mark. -/
theorem eq_of_cutFirst {mark t before after : Text} (h : cutFirst mark t = some (before, after)) :
    t = before ++ mark ++ after := by
  induction t generalizing before with
  | nil => simp [cutFirst] at h
  | cons c t ih =>
    rw [cutFirst] at h
    split at h
    · next found =>
      obtain ⟨rfl, rfl⟩ : [] = before ∧ _ = after := by simpa using h
      simpa using dropMark?_eq_some.mp found
    · obtain ⟨⟨b, a⟩, hcut, hpair⟩ := Option.map_eq_some_iff.mp h
      obtain ⟨rfl, rfl⟩ := Prod.mk.inj hpair
      simp [ih hcut]

/-- Whether `mark` occurs in the text. -/
def mentions (mark t : Text) : Bool := (cutFirst mark t).isSome

/-- The text before the last `mark`. -/
def beforeLast (mark : Char) : Text → Option Text
  | [] => none
  | c :: t =>
    match beforeLast mark t with
    | some before => some (c :: before)
    | none => if c = mark then some [] else none

theorem beforeLast_eq_none {mark : Char} {t : Text} : beforeLast mark t = none ↔ mark ∉ t := by
  induction t with
  | nil => simp [beforeLast]
  | cons c t ih =>
    rw [beforeLast]
    split
    · next h =>
      have : mark ∈ t := Classical.not_not.mp fun hn => by simp [ih.mpr hn] at h
      simp [this]
    · next h => by_cases hc : c = mark <;> simp [hc, ih.mp h, Ne.symm]

/-! ## Pieces -/

/-- The pieces between the occurrences of `mark`. -/
def pieces (mark : Char) : Text → List Text
  | [] => [[]]
  | c :: t =>
    if c = mark then [] :: pieces mark t
    else
      match pieces mark t with
      | [] => [[c]]
      | piece :: others => (c :: piece) :: others

/-- There is one piece more than there are marks. -/
theorem length_pieces (mark : Char) (t : Text) : (pieces mark t).length = t.count mark + 1 := by
  induction t with
  | nil => rfl
  | cons c t ih =>
    by_cases h : c = mark
    · subst h
      simp [pieces, ih]
    · rw [pieces, if_neg h, List.count_cons_of_ne h]
      split
      · next h' => simp [h'] at ih
      · next h' => simpa [h'] using ih

/-- The parts one after the other, with `mark` between neighbours. -/
def joined (mark : Text) : List Text → Text
  | [] => []
  | [part] => part
  | part :: parts => part ++ mark ++ joined mark parts

/-- The lines of a text.  Nothing behind the last line feed is no line, and a carriage return
right before a line feed belongs to the line break. -/
def lines (t : Text) : List Text :=
  let all := pieces '\n' t
  let closed := all.dropLast.map fun line =>
    if line.getLast? = some '\r' then line.dropLast else line
  match all.getLast? with
  | none | some [] => closed
  | some last => closed ++ [last]

end Text
end Workbench
