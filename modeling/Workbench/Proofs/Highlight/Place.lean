import Mathlib
import Workbench.Highlight.Sweep

/-!
# Proofs/Highlight/Place — the places of a source, by number

A place of a source is given by the number of characters before it, and has an offset, a cursor and
what is recognised at it.  Offsets grow with the number (`offsetAt_lt_iff`), so what is shown of
numbers holds of spans.  A seek goes to the first place that is not before its target
(`exists_seek`), and a search finds the first place at which something is recognised
(`exists_of_leftmost`).
-/

namespace Workbench.Highlight

variable {source : Text} {j k n : Nat}

/-! ## Offsets -/

/-- The offset of a place. -/
def offsetAt (source : Text) (k : Nat) : Nat := Text.bytes (source.take k)

/-- The last place of a source is at its length in bytes. -/
theorem offsetAt_length (source : Text) : offsetAt source source.length = Text.bytes source := by
  rw [offsetAt, List.take_length]

theorem offsetAt_add (source : Text) (k n : Nat) :
    offsetAt source (k + n) = offsetAt source k + Text.bytes ((source.drop k).take n) := by
  rw [offsetAt, List.take_add, Text.bytes_append, offsetAt]

/-- Places and offsets go the same way. -/
theorem monotone_offsetAt (source : Text) : Monotone (offsetAt source) := by
  intro j k h
  obtain ⟨n, rfl⟩ := Nat.exists_eq_add_of_le h
  rw [offsetAt_add]
  exact Nat.le_add_right _ _

theorem offsetAt_succ (hk : k < source.length) :
    offsetAt source (k + 1) = offsetAt source k + source[k].utf8Size := by
  rw [offsetAt_add, List.drop_eq_getElem_cons hk]
  rfl

/-- Different places of a source are at different offsets. -/
theorem offsetAt_lt (h : j < k) (hk : k ≤ source.length) :
    offsetAt source j < offsetAt source k := by
  have hj : j < source.length := Nat.lt_of_lt_of_le h hk
  have hpos : 0 < source[j].utf8Size := Char.utf8Size_pos _
  have hnext : offsetAt source (j + 1) ≤ offsetAt source k := monotone_offsetAt source h
  rw [offsetAt_succ hj] at hnext
  omega

/-- Offsets are in the order of the places. -/
theorem offsetAt_lt_iff (hk : k ≤ source.length) :
    offsetAt source j < offsetAt source k ↔ j < k := by
  refine ⟨fun h => ?_, fun h => offsetAt_lt h hk⟩
  by_contra hle
  exact absurd (monotone_offsetAt source (Nat.le_of_not_lt hle)) (Nat.not_le.mpr h)

theorem offsetAt_le_iff (hj : j ≤ source.length) :
    offsetAt source j ≤ offsetAt source k ↔ j ≤ k := by
  rw [← Nat.not_lt, offsetAt_lt_iff hj, Nat.not_lt]

theorem offsetAt_inj (hj : j ≤ source.length) (hk : k ≤ source.length) :
    offsetAt source j = offsetAt source k ↔ j = k := by
  rw [Nat.le_antisymm_iff, offsetAt_le_iff hj, offsetAt_le_iff hk, Nat.le_antisymm_iff]

/-! ## Cursors -/

/-- The cursor at a place. -/
def placeAt (source : Text) (k : Nat) : Cursor :=
  ⟨offsetAt source k, (source.take k).getLast?, source.drop k⟩

theorem first_eq (source : Text) : Cursor.first source = placeAt source 0 := rfl

/-- A place before the end has a character behind it. -/
theorem placeAt_of_lt (hk : k < source.length) : placeAt source k =
    ⟨offsetAt source k, (source.take k).getLast?, source[k] :: source.drop (k + 1)⟩ := by
  rw [placeAt, List.drop_eq_getElem_cons hk]

theorem placeAt_succ (hk : k < source.length) : placeAt source (k + 1) =
    ⟨offsetAt source k + source[k].utf8Size, some source[k], source.drop (k + 1)⟩ := by
  rw [placeAt, offsetAt_succ hk, ← List.take_concat_get' source k hk, List.getLast?_concat]

/-- A step to the right goes over one whole character. -/
theorem following_placeAt (hk : k < source.length) :
    (placeAt source k).following = offsetAt source (k + 1) := by
  rw [placeAt_of_lt hk, offsetAt_succ hk]
  rfl

/-- **A seek** goes to the first place that is not before its target, if there is one. -/
theorem exists_seek (target : Nat) (hk : k ≤ source.length) :
    ∃ j, k ≤ j ∧ j ≤ source.length ∧ (placeAt source k).seek target = placeAt source j ∧
      (target ≤ offsetAt source j ∨ j = source.length) ∧
      ∀ i, k ≤ i → i < j → offsetAt source i < target := by
  induction hk using Nat.decreasingInduction with
  | self =>
    refine ⟨source.length, Nat.le_refl _, Nat.le_refl _, ?_, .inr rfl, by omega⟩
    rw [Cursor.seek, placeAt, List.drop_length]
    rfl
  | of_succ k hk ih =>
    have hseek : (placeAt source k).seek target =
        if offsetAt source k < target then (placeAt source (k + 1)).seek target
        else placeAt source k := by
      rw [placeAt_of_lt hk, placeAt_succ hk]
      rfl
    rw [hseek]
    split
    · next hlt =>
      obtain ⟨j, hj, hlength, hseek, htarget, hbefore⟩ := ih
      refine ⟨j, by omega, hlength, hseek, htarget, fun i hi hij => ?_⟩
      rcases Nat.eq_or_lt_of_le hi with rfl | hi
      · exact hlt
      · exact hbefore i hi hij
    · next hge => exact ⟨k, Nat.le_refl k, by omega, rfl, .inl (by omega), by omega⟩

/-- A seek finds a place by its offset. -/
theorem seek_offsetAt (h : k ≤ j) (hj : j ≤ source.length) :
    (placeAt source k).seek (offsetAt source j) = placeAt source j := by
  obtain ⟨i, hi, hlength, hseek, htarget, hbefore⟩ :=
    exists_seek (offsetAt source j) (Nat.le_trans h hj)
  have hle : i ≤ j := by
    by_contra hlt
    exact absurd (hbefore j h (by omega)) (Nat.lt_irrefl _)
  have hge : j ≤ i := by
    rcases htarget with htarget | rfl
    · exact (offsetAt_le_iff hj).mp htarget
    · exact hj
  rw [hseek, Nat.le_antisymm hle hge]

/-! ## Searches -/

/-- What is recognised at a place. -/
def recognise (r : Recogniser) (source : Text) (k : Nat) : Option Lexeme :=
  r (source.take k).getLast? (source.drop k)

variable {r : Recogniser} {m : Match}

/-- A search stops where something is recognised, and else goes on behind one character. -/
theorem leftmost_of_lt (r : Recogniser) (hk : k < source.length) : leftmost r (placeAt source k) =
    match recognise r source k with
    | some l => some (.ofLexeme (placeAt source k) l)
    | none => leftmost r (placeAt source (k + 1)) := by
  rw [recognise, placeAt_succ hk, placeAt_of_lt hk, List.drop_eq_getElem_cons hk]
  rfl

/-- At the end of a source there is one place left to look at. -/
theorem leftmost_length (r : Recogniser) (source : Text) :
    leftmost r (placeAt source source.length) =
      (recognise r source source.length).map (.ofLexeme (placeAt source source.length)) := by
  rw [recognise, placeAt, List.drop_length]
  rfl

/-- **A search** finds the first place at which something is recognised. -/
theorem exists_of_leftmost (hk : k ≤ source.length) (h : leftmost r (placeAt source k) = some m) :
    ∃ j l, k ≤ j ∧ j ≤ source.length ∧ recognise r source j = some l ∧
      m = .ofLexeme (placeAt source j) l ∧ ∀ i, k ≤ i → i < j → recognise r source i = none := by
  induction hk using Nat.decreasingInduction with
  | self =>
    rw [leftmost_length] at h
    obtain ⟨l, hl, rfl⟩ := Option.map_eq_some_iff.mp h
    exact ⟨source.length, l, Nat.le_refl _, Nat.le_refl _, hl, rfl, by omega⟩
  | of_succ k hk ih =>
    rw [leftmost_of_lt r hk] at h
    split at h
    · next l hl =>
      exact ⟨k, l, Nat.le_refl k, by omega, hl, (Option.some.inj h).symm, by omega⟩
    · next hnone =>
      obtain ⟨j, l, hj, hlength, hl, hm, hbefore⟩ := ih h
      refine ⟨j, l, by omega, hlength, hl, hm, fun i hi hij => ?_⟩
      rcases Nat.eq_or_lt_of_le hi with rfl | hi
      · exact hnone
      · exact hbefore i hi hij

/-- A search finds something if there is anything to find. -/
theorem recognise_of_leftmost (hk : k ≤ source.length) (h : leftmost r (placeAt source k) = none) :
    ∀ j, k ≤ j → j ≤ source.length → recognise r source j = none := by
  induction hk using Nat.decreasingInduction with
  | self =>
    rw [leftmost_length, Option.map_eq_none_iff] at h
    intro j hj hlength
    rwa [Nat.le_antisymm hlength hj]
  | of_succ k hk ih =>
    rw [leftmost_of_lt r hk] at h
    split at h
    · cases h
    · next hnone =>
      intro j hj hlength
      rcases Nat.eq_or_lt_of_le hj with rfl | hj
      · exact hnone
      · exact ih h j hj hlength

end Workbench.Highlight
