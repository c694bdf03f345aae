import Workbench.Proofs.Text.Pieces
import Workbench.Proofs.Text.Replace
import Workbench.Proofs.Trace.Break

/-!
# Proofs/Trace/Operand — operands with spaces between them

An operator is a plus sign with all blanks around it, and joining operands replaces every operator
by a space (`replaces_joinOperands`).  Blanks between two plus signs belong to the first of them, so
the matches are not those of the plus signs taken one by one; but what is left between them is the
same: the pieces of the text, each trimmed on the sides on which a plus sign stands
(`joinOperands_joined`, `operands_joined`).
-/

namespace Workbench

namespace Text

variable {s t : Text} {c : Char}

/-- Of blanks nothing is left. -/
theorem trimEnd_of_blank (h : ∀ c ∈ s, isBlank c) : trimEnd s = [] :=
  trimEnd_append_of_blank [] h

/-- Nothing is trimmed in front of a character that is no blank. -/
theorem trimEnd_append_cons (hc : isBlank c = false) (s t : Text) :
    trimEnd (s ++ c :: t) = s ++ c :: trimEnd t := by
  have hkeep : (c :: s.reverse).dropWhile isBlank = c :: s.reverse :=
    List.dropWhile_cons_of_neg (Bool.eq_false_iff.mp hc)
  rw [trimEnd, List.reverse_append, List.reverse_cons, List.append_assoc, List.singleton_append,
    List.dropWhile_append, hkeep]
  split
  · next hblank => simp [trimEnd, List.isEmpty_iff.mp hblank]
  · simp [trimEnd]

/-- Trimming stops at the first character that is no blank. -/
theorem trimStart_append_cons (hc : isBlank c = false) (s t : Text) :
    trimStart (s ++ c :: t) = trimStart s ++ c :: t := by
  have hkeep : (c :: t).dropWhile isBlank = c :: t :=
    List.dropWhile_cons_of_neg (Bool.eq_false_iff.mp hc)
  rw [trimStart, List.dropWhile_append, hkeep]
  split
  · next hblank => rw [trimStart, List.isEmpty_iff.mp hblank, List.nil_append]
  · rfl

/-- What is trimmed off the end is blank. -/
theorem exists_trimEnd_append (t : Text) :
    ∃ blanks, t = trimEnd t ++ blanks ∧ ∀ c ∈ blanks, isBlank c = true := by
  refine ⟨(t.reverse.takeWhile isBlank).reverse, ?_, fun c hc => ?_⟩
  · rw [trimEnd, ← List.reverse_append, List.takeWhile_append_dropWhile, List.reverse_reverse]
  · exact List.all_eq_true.mp List.all_takeWhile c (List.mem_reverse.mp hc)

theorem getLast?_trimEnd (t : Text) : ∀ c ∈ (trimEnd t).getLast?, isBlank c = false := by
  rw [trimEnd, List.getLast?_reverse]
  exact head?_dropWhile isBlank t.reverse

theorem length_trimStart_le (t : Text) : (trimStart t).length ≤ t.length :=
  (List.dropWhile_sublist isBlank).length_le

theorem joined_cons_singleton (c : Char) (part : Text) {parts : List Text} (h : parts ≠ []) :
    joined [c] (part :: parts) = part ++ c :: joined [c] parts := by
  rw [joined_cons _ _ h, List.append_assoc, List.singleton_append]

theorem notMem_trimStart (h : c ∉ t) : c ∉ trimStart t :=
  fun hc => h ((List.dropWhile_sublist isBlank).subset hc)

end Text

namespace Argument

open Text (Pattern Replaces isBlank joined pieces trim trimEnd trimStart)

variable {t first last : Text} {middle : List Text} {held : Option Text}

/-! ## Joining, one plus sign after the other -/

/-- A plus sign is no blank. -/
theorem isBlank_plus : isBlank '+' = false := by decide

theorem ne_plus_of_isBlank {c : Char} (h : isBlank c = true) : c ≠ '+' := by
  rintro rfl
  rw [isBlank_plus] at h
  cases h

/-- Behind a plus sign blanks are dropped. -/
theorem joinFrom_none (t : Text) : joinFrom none t = joinOperands (trimStart t) := by
  induction t with
  | nil => rfl
  | cons c t ih =>
    by_cases hblank : isBlank c = true
    · rw [joinFrom, if_neg (ne_plus_of_isBlank hblank), if_pos hblank, trimStart,
        List.dropWhile_cons_of_pos hblank]
      exact ih
    · rw [trimStart, List.dropWhile_cons_of_neg hblank, joinOperands, joinFrom, joinFrom,
        if_neg hblank, if_neg hblank]
      rfl

theorem joinFrom_some_of_notMem {held : Text} (ht : '+' ∉ t) :
    joinFrom (some held) t = held.reverse ++ t := by
  induction t generalizing held with
  | nil => simp [joinFrom]
  | cons c t ih =>
    obtain ⟨hc, ht⟩ := List.ne_and_not_mem_of_not_mem_cons ht
    rw [joinFrom, if_neg hc.symm]
    split
    · rw [Option.map_some, ih ht]
      simp
    · rw [ih ht]
      simp

/-- Without a plus sign nothing is joined. -/
theorem joinOperands_of_notMem (ht : '+' ∉ t) : joinOperands t = t :=
  joinFrom_some_of_notMem ht

/-- At a plus sign the operand that was held back is trimmed, and a new one begins behind the
blanks. -/
theorem joinFrom_some_append {held : Text} (hheld : ∀ c ∈ held, isBlank c = true)
    (hfirst : '+' ∉ first) (t : Text) : joinFrom (some held) (first ++ '+' :: t) =
      trimEnd (held.reverse ++ first) ++ ' ' :: joinOperands (trimStart t) := by
  induction first generalizing held with
  | nil =>
    have hnone : trimEnd (held.reverse ++ []) = [] :=
      Text.trimEnd_of_blank (by simpa using hheld)
    rw [hnone, List.nil_append, joinFrom, if_pos rfl, joinFrom_none]
    rfl
  | cons c first ih =>
    obtain ⟨hc, hfirst⟩ := List.ne_and_not_mem_of_not_mem_cons hfirst
    rw [List.cons_append, joinFrom, if_neg hc.symm]
    split
    · next hblank =>
      rw [Option.map_some, ih (List.forall_mem_cons.mpr ⟨hblank, hheld⟩) hfirst, List.reverse_cons,
        List.append_assoc, List.singleton_append]
    · next hblank =>
      rw [ih (List.forall_mem_nil _) hfirst,
        Text.trimEnd_append_cons (Bool.eq_false_iff.mpr hblank), List.append_assoc]
      rfl

/-- A plus sign is joined with the blanks around it. -/
theorem joinOperands_append (hfirst : '+' ∉ first) (t : Text) :
    joinOperands (first ++ '+' :: t) =
      trimEnd first ++ ' ' :: joinOperands (trimStart t) :=
  joinFrom_some_append (List.forall_mem_nil _) hfirst t

/-- A text has no plus sign, or it has a first one, behind which the joining goes on at the first
character that is no blank. -/
theorem operandInduction {P : Text → Prop} (single : ∀ t, '+' ∉ t → P t)
    (operator : ∀ first t, '+' ∉ first → P (trimStart t) → P (first ++ '+' :: t)) (t : Text) : P t := by
  induction hlength : t.length using Nat.strong_induction_on generalizing t with
  | h n ih =>
    by_cases ht : '+' ∈ t
    · obtain ⟨first, t, rfl, hfirst⟩ := List.eq_append_cons_of_mem ht
      refine operator first t hfirst (ih _ ?_ _ rfl)
      have := Text.length_trimStart_le t
      rw [← hlength, List.length_append, List.length_cons]
      omega
    · exact single t ht

/-- Nothing that is shown is a plus sign. -/
theorem plus_notMem_joinOperands (t : Text) : '+' ∉ joinOperands t := by
  induction t using operandInduction with
  | single t ht => rwa [joinOperands_of_notMem ht]
  | operator first t hfirst ih =>
    obtain ⟨blanks, hsplit, -⟩ := Text.exists_trimEnd_append first
    rw [joinOperands_append hfirst, List.mem_append, List.mem_cons]
    rintro (hmem | hmem | hmem)
    · exact hfirst (hsplit ▸ List.mem_append_left blanks hmem)
    · cases hmem
    · exact ih hmem

/-- **The operands**: joining trims the pieces between the plus signs on the sides on which these
stand. -/
theorem joinOperands_joined (hfirst : '+' ∉ first) (hmiddle : ∀ piece ∈ middle, '+' ∉ piece)
    (hlast : '+' ∉ last) : joinOperands (joined ['+'] (first :: (middle ++ [last]))) =
      joined [' '] (trimEnd first :: (middle.map trim ++ [trimStart last])) := by
  induction middle generalizing first with
  | nil =>
    rw [List.nil_append, Text.joined_cons_singleton _ _ (List.cons_ne_nil _ _), joined,
      joinOperands_append hfirst, joinOperands_of_notMem (Text.notMem_trimStart hlast)]
    exact (Text.joined_cons_singleton ' ' (trimEnd first) (List.cons_ne_nil _ [])).symm
  | cons piece middle ih =>
    obtain ⟨hpiece, hmiddle⟩ := List.forall_mem_cons.mp hmiddle
    have hne : middle ++ [last] ≠ [] := by simp
    calc joinOperands (joined ['+'] (first :: (piece :: middle ++ [last])))
      _ = trimEnd first ++ ' ' ::
          joinOperands (trimStart (joined ['+'] (piece :: (middle ++ [last])))) := by
        rw [List.cons_append, Text.joined_cons_singleton _ _ (List.cons_ne_nil _ _),
          joinOperands_append hfirst]
      _ = trimEnd first ++ ' ' ::
          joinOperands (joined ['+'] (trimStart piece :: (middle ++ [last]))) := by
        rw [Text.joined_cons_singleton _ _ hne, Text.joined_cons_singleton _ _ hne,
          Text.trimStart_append_cons isBlank_plus]
      _ = trimEnd first ++ ' ' ::
          joined [' '] (trim piece :: (middle.map trim ++ [trimStart last])) := by
        rw [ih (Text.notMem_trimStart hpiece) hmiddle]
        rfl
      _ = joined [' '] (trimEnd first :: ((piece :: middle).map trim ++ [trimStart last])) :=
        (Text.joined_cons_singleton _ _ (List.cons_ne_nil _ _)).symm

/-! ## Operators -/

/-- The pattern of operators: a plus sign with all blanks around it. -/
def operator : Pattern := fun taken behind shown =>
  shown = [' '] ∧ (∀ c ∈ behind.head?, isBlank c = false) ∧
    ∃ left right, taken = left ++ '+' :: right ∧ (∀ c ∈ left, isBlank c = true) ∧
      ∀ c ∈ right, isBlank c = true

theorem plus_notMem_of_blank {blanks : Text} (h : ∀ c ∈ blanks, isBlank c = true) :
    '+' ∉ blanks :=
  fun hmem => ne_plus_of_isBlank (h _ hmem) rfl

/-- Blanks end where something else begins. -/
theorem takeWhile_append_of_blank {blanks behind : Text} (h : ∀ c ∈ blanks, isBlank c = true)
    (hbehind : ∀ c ∈ behind.head?, isBlank c = false) :
    (blanks ++ behind).takeWhile isBlank = blanks := by
  have hnone : behind.takeWhile isBlank = [] := by
    cases behind with
    | nil => rfl
    | cons c behind => exact List.takeWhile_cons_of_neg (Bool.eq_false_iff.mp (hbehind c rfl))
  rw [List.takeWhile_append_of_pos h, hnone, List.append_nil]

/-- An operator ends in one place only. -/
theorem definite_operator : operator.Definite where
  nonempty := by
    rintro _ _ _ ⟨-, -, left, right, rfl, -⟩
    simp
  unique := by
    rintro _ behind _ _ behind' _ ⟨rfl, hbehind, left, right, rfl, hleft, hright⟩
      ⟨rfl, hbehind', left', right', rfl, hleft', hright'⟩ h
    have hsplit : left ++ '+' :: (right ++ behind) = left' ++ '+' :: (right' ++ behind') := by
      simpa using h
    obtain ⟨rfl, hrest⟩ := Text.append_cons_inj (plus_notMem_of_blank hleft)
      (plus_notMem_of_blank hleft') hsplit
    have hright : right = right' := by
      rw [← takeWhile_append_of_blank hright hbehind, hrest,
        takeWhile_append_of_blank hright' hbehind']
    exact ⟨by rw [hright], rfl⟩

/-- An operator has nothing but blanks before its plus sign. -/
theorem blank_of_begins (hfirst : '+' ∉ first) (h : operator.Begins (first ++ '+' :: t)) :
    ∀ c ∈ first, isBlank c = true := by
  obtain ⟨_, behind, _, hsplit, -, -, left, right, rfl, hleft, -⟩ := h
  have hsplit : first ++ '+' :: t = left ++ '+' :: (right ++ behind) := by simpa using hsplit
  obtain ⟨rfl, -⟩ := Text.append_cons_inj hfirst (plus_notMem_of_blank hleft) hsplit
  exact hleft

/-- Without a plus sign there is no operator. -/
theorem not_begins_of_notMem (ht : '+' ∉ t) : ¬ operator.Begins t := by
  rintro ⟨_, behind, _, rfl, -, -, left, right, rfl, -⟩
  exact ht (by simp)

/-- The blanks in front of a plus sign, the sign and the blanks behind it are an operator. -/
theorem operator_of_blank {left : Text} (hleft : ∀ c ∈ left, isBlank c = true) (t : Text) :
    operator (left ++ '+' :: t.takeWhile isBlank) (trimStart t) [' '] := by
  refine ⟨rfl, Text.head?_dropWhile isBlank t, left, _, rfl, hleft, ?_⟩
  exact fun c => List.all_eq_true.mp List.all_takeWhile c

/-- No operator begins in front of the blanks that are trimmed off an operand. -/
theorem not_begins_trimEnd {x y left : Text} {c : Char} (hfirst : '+' ∉ first)
    (hsplit : first = trimEnd first ++ left) (hkept : trimEnd first = x ++ c :: y) (t : Text) :
    ¬ operator.Begins (c :: (y ++ (left ++ '+' :: t))) := by
  intro hbegins
  rw [hsplit, hkept] at hfirst
  have hplus : '+' ∉ c :: (y ++ left) := fun hmem => hfirst (by simp_all)
  have hblank : ∀ d ∈ c :: (y ++ left), isBlank d = true :=
    blank_of_begins hplus (by simpa using hbegins)
  have hlast : (trimEnd first).getLast? = some ((c :: y).getLast (List.cons_ne_nil c y)) := by
    rw [hkept, List.getLast?_append_of_ne_nil _ (List.cons_ne_nil c y),
      List.getLast?_eq_some_getLast]
  have hsolid := Text.getLast?_trimEnd first _ hlast
  rw [hblank _ (List.mem_append_left left (List.getLast_mem (List.cons_ne_nil c y)))] at hsolid
  cases hsolid

/-- Operands are joined by replacing the operators. -/
theorem replaces_joinOperands (t : Text) : Replaces operator t (joinOperands t) := by
  induction t using operandInduction with
  | single t ht =>
    rw [joinOperands_of_notMem ht, ← List.append_nil t]
    refine Replaces.stop.copies fun x c y hsplit => not_begins_of_notMem fun hmem => ht ?_
    rw [hsplit]
    exact List.mem_append_right x (by simpa using hmem)
  | operator first t hfirst ih =>
    obtain ⟨left, hsplit, hleft⟩ := Text.exists_trimEnd_append first
    have hjoined := Replaces.replace (operator_of_blank hleft t) ih
    rw [List.append_assoc, List.cons_append, trimStart, List.takeWhile_append_dropWhile] at hjoined
    -- what is kept of the operand before the plus sign is copied
    have hcopied := hjoined.copies (s := trimEnd first)
      fun x c y hkept => not_begins_trimEnd hfirst hsplit hkept t
    rw [← List.append_assoc, ← hsplit] at hcopied
    rw [joinOperands_append hfirst]
    exact hcopied

/-! ## The pieces -/

/-- The pieces of a text that has a plus sign: a first one, a last one, and those between them. -/
theorem exists_pieces_eq (ht : '+' ∈ t) :
    ∃ first middle last, pieces '+' t = first :: (middle ++ [last]) := by
  have hlength := Text.length_pieces '+' t
  have hpos := List.count_pos_iff.mpr ht
  cases hpieces : pieces '+' t with
  | nil => exact absurd hpieces (Text.pieces_ne_nil '+' t)
  | cons first rest =>
    have hrest : rest ≠ [] := by
      rintro rfl
      rw [hpieces, List.length_singleton] at hlength
      omega
    exact ⟨first, rest.dropLast, rest.getLast hrest, by rw [List.dropLast_append_getLast]⟩

/-- **Joining operands** replaces each plus sign, with all blanks around it, by one space.  A text
without a plus sign stays as it is; of any other, the pieces between the plus signs are shown,
trimmed where these stand, with one space for each of them.  So no plus sign is left, and nothing
is left to join. -/
theorem operands_joined (t : Text) :
    ('+' ∉ t → joinOperands t = t) ∧
    ('+' ∈ t → ∃ first middle last, pieces '+' t = first :: (middle ++ [last]) ∧
      middle.length + 1 = t.count '+' ∧
      joinOperands t = joined [' '] (trimEnd first :: (middle.map trim ++ [trimStart last]))) ∧
    '+' ∉ joinOperands t ∧ joinOperands (joinOperands t) = joinOperands t ∧
    ∀ shown, Replaces operator t shown ↔ joinOperands t = shown := by
  refine ⟨joinOperands_of_notMem, fun ht => ?_, plus_notMem_joinOperands t,
    joinOperands_of_notMem (plus_notMem_joinOperands t),
    fun shown => Replaces.iff_of_forall definite_operator replaces_joinOperands⟩
  obtain ⟨first, middle, last, hpieces⟩ := exists_pieces_eq ht
  have hplus : ∀ piece ∈ first :: (middle ++ [last]), '+' ∉ piece := fun piece hpiece =>
    Text.notMem_of_mem_pieces (hpieces ▸ hpiece)
  obtain ⟨hfirst, hrest⟩ := List.forall_mem_cons.mp hplus
  obtain ⟨hmiddle, hlast⟩ := List.forall_mem_append.mp hrest
  refine ⟨first, middle, last, hpieces, ?_, ?_⟩
  · have hlength := Text.length_pieces '+' t
    rw [hpieces, List.length_cons, List.length_append, List.length_singleton] at hlength
    omega
  · rw [← joinOperands_joined hfirst hmiddle (hlast last List.mem_cons_self), ← hpieces,
      Text.joined_pieces]

/-- Two plus signs with blanks between them, and one at the end: each leaves a space. -/
theorem operands_joined_neighbours :
    let t : Text := "a\t+\u00a0+ b+ "
    '+' ∈ t ∧ joinOperands t = "a  b ".toList ∧ '+' ∉ "a  b ".toList ∧
      ∃ first middle last, pieces '+' t = first :: (middle ++ [last]) ∧
        middle.length + 1 = t.count '+' ∧
        joinOperands t = joined [' '] (trimEnd first :: (middle.map trim ++ [trimStart last])) := by
  intro t
  have ht : '+' ∈ t := by decide
  have hjoined : joinOperands t = "a  b ".toList := by decide
  obtain ⟨-, hpieces, hplus, -⟩ := operands_joined t
  exact ⟨ht, hjoined, hjoined ▸ hplus, hpieces ht⟩

end Argument
end Workbench
