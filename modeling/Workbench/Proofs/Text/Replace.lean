import Workbench.Proofs.Text.Scan

/-!
# Proofs/Text/Replace — a text with all matches of a pattern replaced

A **pattern** says what it takes at a place, in front of which text, and what is shown instead.
Matches are replaced from left to right: where one begins it is taken whole and the replacing goes
on behind it, and elsewhere one character is copied (`Replaces`).  A pattern that leaves no choice
has one result only (`Replaces.unique`).
-/

namespace Workbench.Text

/-- A pattern: it takes a text in front of another, and has a third shown instead. -/
abbrev Pattern := (taken behind shown : Text) → Prop

namespace Pattern

/-- A pattern takes something at the start of a text. -/
def Begins (p : Pattern) (t : Text) : Prop :=
  ∃ taken behind shown, t = taken ++ behind ∧ p taken behind shown

/-- A pattern takes something, if anything at all, and leaves no choice of what to take and to
show. -/
structure Definite (p : Pattern) : Prop where
  nonempty : ∀ {taken behind shown}, p taken behind shown → taken ≠ []
  unique : ∀ {taken behind shown taken' behind' shown'}, p taken behind shown →
    p taken' behind' shown' → taken ++ behind = taken' ++ behind' → taken = taken' ∧ shown = shown'

end Pattern

/-- A text, and what is shown of it once every match of a pattern is replaced. -/
inductive Replaces (p : Pattern) : Text → Text → Prop
  /-- At the end of the text. -/
  | stop : Replaces p [] []
  /-- No match begins at a place, and its character is copied. -/
  | copy {c : Char} {t shown : Text} : ¬ p.Begins (c :: t) → Replaces p t shown →
    Replaces p (c :: t) (c :: shown)
  /-- A match is replaced, and the replacing goes on behind it. -/
  | replace {taken behind instead shown : Text} : p taken behind instead →
    Replaces p behind shown → Replaces p (taken ++ behind) (instead ++ shown)

namespace Replaces

variable {p : Pattern} {s t shown shown' : Text}

/-- A text in which no match begins is copied. -/
theorem copies (h : Replaces p t shown)
    (hs : ∀ x c y, s = x ++ c :: y → ¬ p.Begins (c :: (y ++ t))) : Replaces p (s ++ t) (s ++ shown) := by
  induction s with
  | nil => exact h
  | cons c s ih =>
    refine copy (hs [] c s rfl) (ih fun x d y hsplit => hs (c :: x) d y ?_)
    rw [hsplit, List.cons_append]

/-- **One result only**, if the pattern leaves no choice. -/
theorem unique (hp : p.Definite) (h : Replaces p t shown) (h' : Replaces p t shown') :
    shown = shown' := by
  induction h generalizing shown' with
  | stop =>
    generalize ht : ([] : Text) = t at h'
    cases h' with
    | stop => rfl
    | copy => cases ht
    | replace hmatch => exact absurd (List.append_eq_nil_iff.mp ht.symm).1 (hp.nonempty hmatch)
  | @copy c t shown hnone _ ih =>
    generalize ht : c :: t = t' at h'
    cases h' with
    | stop => cases ht
    | copy _ hrest =>
      obtain ⟨rfl, rfl⟩ := List.cons_eq_cons.mp ht
      rw [ih hrest]
    | replace hmatch => exact absurd ⟨_, _, _, ht, hmatch⟩ hnone
  | @replace taken behind instead shown hmatch _ ih =>
    generalize ht : taken ++ behind = t' at h'
    cases h' with
    | stop => exact absurd (List.append_eq_nil_iff.mp ht).1 (hp.nonempty hmatch)
    | copy hnone => exact absurd ⟨_, _, _, ht.symm, hmatch⟩ hnone
    | replace hmatch' hrest =>
      obtain ⟨rfl, rfl⟩ := hp.unique hmatch hmatch' ht
      obtain rfl := List.append_cancel_left ht
      rw [ih hrest]

/-- What a function shows is the result, if it is one for every text. -/
theorem iff_of_forall (hp : p.Definite) {f : Text → Text} (h : ∀ t, Replaces p t (f t)) :
    Replaces p t shown ↔ f t = shown := by
  constructor
  · exact (h t).unique hp
  · rintro rfl
    exact h t

end Replaces

/-- What stands before the first of a character is known from the text. -/
theorem append_cons_inj {c : Char} {s s' t t' : Text} (hs : c ∉ s) (hs' : c ∉ s')
    (h : s ++ c :: t = s' ++ c :: t') : s = s' ∧ t = t' := by
  have hcut {s t : Text} (hs : c ∉ s) : cutFirst [c] (s ++ c :: t) = some (s, t) :=
    cutFirst_append List.not_mem_nil fun hmem => hs ((List.singleton_infix_iff c s).mp hmem)
  have hpair := hcut (t := t) hs
  rw [h, hcut hs'] at hpair
  obtain ⟨rfl, rfl⟩ := Prod.mk.inj (Option.some.inj hpair)
  exact ⟨rfl, rfl⟩

end Workbench.Text
