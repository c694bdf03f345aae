import Workbench.Proofs.Text.Pieces
import Workbench.Proofs.Text.Scan

/-!
# Proofs/Text/Occurrence — where a mark occurs in a text

Said without any scan: a mark occurs first at a place if it occurs at no place before
(`FirstCut`), and parts are what lies between the marks of a text if they hold none and the text is
these parts with marks between them (`Splits`).  The scans find just that
(`cutFirst_eq_some_iff`, `beforeLast_eq_some_iff`), and every text has parts (`exists_splits`).
-/

namespace Workbench.Text

variable {mark t before behind : Text} {c : Char}

/-! ## The first occurrence -/

/-- A text is cut at the first occurrence of a mark. -/
structure FirstCut (mark t before behind : Text) : Prop where
  split : t = before ++ mark ++ behind
  first : ∀ x y, t = x ++ mark ++ y → before.length ≤ x.length

/-- A mark that occurs first behind a text does not occur in that text. -/
theorem FirstCut.not_infix (h : FirstCut mark t before behind) (hmark : mark ≠ []) :
    ¬ mark <:+: before := by
  rintro ⟨x, y, rfl⟩
  have hle := h.first x (y ++ mark ++ behind) (by rw [h.split]; simp)
  have hpos := List.length_pos_iff.mpr hmark
  simp only [List.length_append] at hle
  omega

theorem FirstCut.unique {before' behind' : Text} (h : FirstCut mark t before behind)
    (h' : FirstCut mark t before' behind') : before = before' ∧ behind = behind' := by
  have hlength : before.length = before'.length :=
    Nat.le_antisymm (h.first _ _ h'.split) (h'.first _ _ h.split)
  have hsplit : before ++ (mark ++ behind) = before' ++ (mark ++ behind') := by
    rw [← List.append_assoc, ← List.append_assoc, ← h.split, ← h'.split]
  obtain ⟨hbefore, hrest⟩ := List.append_inj hsplit hlength
  exact ⟨hbefore, List.append_cancel_left hrest⟩

theorem firstCut_of_cutFirst (h : cutFirst mark t = some (before, behind)) :
    FirstCut mark t before behind := by
  refine ⟨eq_of_cutFirst h, fun x y hx => ?_⟩
  induction t generalizing before x with
  | nil => cases h
  | cons d t ih =>
    rw [cutFirst] at h
    split at h
    · obtain ⟨rfl, -⟩ := Prod.mk.inj (Option.some.inj h)
      exact Nat.zero_le _
    · next hnone =>
      obtain ⟨⟨before', behind'⟩, hcut, hpair⟩ := Option.map_eq_some_iff.mp h
      obtain ⟨rfl, rfl⟩ := Prod.mk.inj hpair
      cases x with
      | nil =>
        rw [hx, List.nil_append, dropMark?_append] at hnone
        cases hnone
      | cons e x =>
        obtain ⟨-, hx'⟩ := List.cons_eq_cons.mp hx
        exact Nat.succ_le_succ (ih hcut x hx')

/-- **The scan finds the first occurrence**, and finds one if there is any. -/
theorem cutFirst_eq_some_iff (hmark : mark ≠ []) :
    cutFirst mark t = some (before, behind) ↔ FirstCut mark t before behind := by
  refine ⟨firstCut_of_cutFirst, fun h => ?_⟩
  have hmentions : mentions mark t = true :=
    (mentions_iff hmark).mpr ⟨before, behind, h.split.symm⟩
  obtain ⟨⟨before', behind'⟩, hcut⟩ := Option.isSome_iff_exists.mp hmentions
  obtain ⟨rfl, rfl⟩ := h.unique (firstCut_of_cutFirst hcut)
  exact hcut

/-! ## The last occurrence -/

theorem beforeLast_append_cons (before : Text) (h : c ∉ behind) :
    beforeLast c (before ++ c :: behind) = some before := by
  induction before with
  | nil => rw [List.nil_append, beforeLast, beforeLast_eq_none.mpr h, if_pos rfl]
  | cons d before ih => rw [List.cons_append, beforeLast, ih]

/-- **The scan finds the last occurrence** of a character. -/
theorem beforeLast_eq_some_iff :
    beforeLast c t = some before ↔ ∃ behind, t = before ++ c :: behind ∧ c ∉ behind := by
  refine ⟨fun h => ?_, ?_⟩
  · induction t generalizing before with
    | nil => cases h
    | cons d t ih =>
      rw [beforeLast] at h
      split at h
      · next found hfound =>
        obtain rfl := Option.some.inj h
        obtain ⟨behind, rfl, hbehind⟩ := ih hfound
        exact ⟨behind, rfl, hbehind⟩
      · next hnone =>
        split at h
        · next hd =>
          obtain rfl := Option.some.inj h
          exact ⟨t, by rw [hd, List.nil_append], beforeLast_eq_none.mp hnone⟩
        · cases h
  · rintro ⟨behind, rfl, hbehind⟩
    exact beforeLast_append_cons before hbehind

/-! ## All occurrences -/

/-- A part stands in the text. -/
theorem infix_joined {part : Text} {parts : List Text} (h : part ∈ parts) :
    part <:+: joined mark parts := by
  induction parts with
  | nil => cases h
  | cons first parts ih =>
    by_cases hparts : parts = []
    · subst hparts
      obtain rfl := List.mem_singleton.mp h
      exact List.infix_refl _
    · rw [joined_cons _ _ hparts]
      rcases List.mem_cons.mp h with rfl | h
      · rw [List.append_assoc]
        exact (List.prefix_append _ _).isInfix
      · exact (ih h).trans (List.suffix_append _ _).isInfix

/-- The parts of a text between the occurrences of a mark. -/
structure Splits (mark t : Text) (parts : List Text) : Prop where
  nonempty : parts ≠ []
  joined : joined mark parts = t
  unmarked : ∀ part ∈ parts, ¬ mark <:+: part

/-- Every text has parts. -/
theorem exists_splits (hmark : mark ≠ []) (t : Text) : ∃ parts, Splits mark t parts := by
  induction hlength : t.length using Nat.strong_induction_on generalizing t with
  | h n ih =>
    by_cases hwithin : mark <:+: t
    · obtain ⟨⟨before, behind⟩, hcut⟩ :=
        Option.isSome_iff_exists.mp ((mentions_iff hmark).mpr hwithin)
      have hfirst := firstCut_of_cutFirst hcut
      have hpos := List.length_pos_iff.mpr hmark
      have hshorter : behind.length < n := by
        rw [← hlength, hfirst.split, List.length_append, List.length_append]
        omega
      obtain ⟨parts, hnonempty, hjoined, hunmarked⟩ := ih _ hshorter behind rfl
      refine ⟨before :: parts, List.cons_ne_nil _ _, ?_,
        List.forall_mem_cons.mpr ⟨hfirst.not_infix hmark, hunmarked⟩⟩
      rw [joined_cons _ _ hnonempty, hjoined, hfirst.split]
    · exact ⟨[t], List.cons_ne_nil _ _, rfl, List.forall_mem_singleton.mpr hwithin⟩

end Workbench.Text
