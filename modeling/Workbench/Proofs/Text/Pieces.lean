import Mathlib
import Workbench.Text.Basic

/-!
# Proofs/Text/Pieces — a text and the pieces between its marks

Pieces hold no mark, and the text is the pieces with marks between them; so cutting at one mark and
then at all others is the same as cutting at all (`pieces_append`).
-/

namespace Workbench.Text

variable {mark : Char} {t piece : Text}

/-- The pieces of a text are those of the list of its characters. -/
theorem pieces_eq_splitOn (mark : Char) (t : Text) : pieces mark t = t.splitOn mark := by
  induction t with
  | nil => rfl
  | cons c t ih =>
    have hcons : (c :: t).splitOn mark =
        if (c == mark) = true then [] :: t.splitOn mark
        else (t.splitOn mark).modifyHead (c :: ·) :=
      List.splitOnP_cons_eq_if_modifyHead c t
    rw [pieces, ih, hcons]
    refine if_congr beq_iff_eq.symm rfl ?_
    cases hpieces : t.splitOn mark with
    | nil => exact absurd hpieces (List.splitOnP_ne_nil _ _)
    | cons first others => rfl

/-- A mark cuts a text in two. -/
theorem pieces_append (mark : Char) (before behind : Text) :
    pieces mark (before ++ mark :: behind) = pieces mark before ++ pieces mark behind := by
  simp only [pieces_eq_splitOn]
  exact List.splitOnP_append_cons _ _ (beq_self_eq_true mark)

/-- A text without the mark is one piece. -/
theorem pieces_of_notMem (h : mark ∉ t) : pieces mark t = [t] := by
  rw [pieces_eq_splitOn]
  exact List.splitOnP_eq_singleton fun c hc => beq_eq_false_iff_ne.mpr (ne_of_mem_of_not_mem hc h)

/-- A piece holds no mark. -/
theorem notMem_of_mem_pieces (h : piece ∈ pieces mark t) : mark ∉ piece := by
  induction t generalizing piece with
  | nil =>
    obtain rfl := List.mem_singleton.mp h
    exact List.not_mem_nil
  | cons c t ih =>
    rw [pieces] at h
    split at h
    · rcases List.mem_cons.mp h with rfl | h
      · exact List.not_mem_nil
      · exact ih h
    · next hc =>
      split at h
      · next hpieces =>
        obtain rfl := List.mem_singleton.mp h
        simpa using Ne.symm hc
      · next first others hpieces =>
        rw [hpieces] at ih
        rcases List.mem_cons.mp h with rfl | h
        · exact List.not_mem_cons_of_ne_of_not_mem (Ne.symm hc) (ih List.mem_cons_self)
        · exact ih (List.mem_cons_of_mem _ h)

/-- The pieces have all that is no mark. -/
theorem flatten_pieces (mark : Char) (t : Text) :
    (pieces mark t).flatten = t.filter fun c => c ≠ mark := by
  induction t with
  | nil => rfl
  | cons c t ih =>
    rw [pieces]
    split
    · next hc =>
      rw [List.flatten_cons, List.nil_append, ih, List.filter_cons_of_neg (by simp [hc])]
    · next hc =>
      rw [List.filter_cons_of_pos (by simp [hc]), ← ih]
      split
      · next hpieces => rw [hpieces]; rfl
      · next hpieces => rw [hpieces]; rfl

theorem joined_cons (mark part : Text) {parts : List Text} (h : parts ≠ []) :
    joined mark (part :: parts) = part ++ mark ++ joined mark parts := by
  rw [joined]
  exact h

/-- Parts with marks between them are the pieces again. -/
theorem pieces_joined {parts : List Text} (hparts : parts ≠ []) (h : ∀ part ∈ parts, mark ∉ part) :
    pieces mark (joined [mark] parts) = parts := by
  induction parts with
  | nil => exact absurd rfl hparts
  | cons part parts ih =>
    obtain ⟨hpart, hrest⟩ := List.forall_mem_cons.mp h
    cases parts with
    | nil => exact pieces_of_notMem hpart
    | cons next others =>
      rw [joined_cons _ _ (List.cons_ne_nil _ _), List.append_assoc, List.singleton_append,
        pieces_append, pieces_of_notMem hpart, ih (List.cons_ne_nil _ _) hrest,
        List.singleton_append]

theorem pieces_ne_nil (mark : Char) (t : Text) : pieces mark t ≠ [] := by
  rw [pieces_eq_splitOn]
  exact List.splitOnP_ne_nil _ _

/-- The pieces with marks between them are the text again. -/
theorem joined_pieces (mark : Char) (t : Text) : joined [mark] (pieces mark t) = t := by
  induction t with
  | nil => rfl
  | cons c t ih =>
    rw [pieces]
    split
    · next hc => rw [joined_cons _ _ (pieces_ne_nil mark t), ih, hc]; rfl
    · split
      · next hpieces => exact absurd hpieces (pieces_ne_nil mark t)
      · next first others hpieces =>
        rw [hpieces] at ih
        cases others with
        | nil => rw [← ih]; rfl
        | cons next more => rw [← ih]; rfl

end Workbench.Text
