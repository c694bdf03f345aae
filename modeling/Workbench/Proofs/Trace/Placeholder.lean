import Workbench.Proofs.Trace.Break
import Workbench.Proofs.Text.Scan

/-!
# Proofs/Trace/Placeholder — filling a formatted text piece by piece

A formatted text is copied up to its first brace; that brace either has a closing one behind it and
is a placeholder with it, or is copied with all that follows (`braceInduction`).  Filling goes piece
by piece: at a place where no brace is open the two sides are filled on their own
(`fillPlaceholders_append`).  So two characters that are neighbours in the filled text and were not
before have met at such a place (`exists_meeting`).
-/

namespace Workbench

namespace Argument

variable {c : Char} {e t before behind : Text}

/-! ## The pieces of a formatted text -/

/-- A text is empty, begins with a character of its own, with a placeholder, or with a brace that is
never closed. -/
theorem braceInduction {P : Text → Prop} (empty : P [])
    (plain : ∀ c t, c ≠ '\x7b' → P t → P (c :: t))
    (placeholder : ∀ e t, '\x7d' ∉ e → P t → P ('\x7b' :: (e ++ '\x7d' :: t)))
    (unclosed : ∀ e, '\x7d' ∉ e → P ('\x7b' :: e)) (t : Text) : P t := by
  induction hlength : t.length using Nat.strong_induction_on generalizing t with
  | h n ih =>
    cases t with
    | nil => exact empty
    | cons c t =>
      by_cases hc : c = '\x7b'
      · subst hc
        by_cases hclosed : '\x7d' ∈ t
        · obtain ⟨e, rest, rfl, he⟩ := List.eq_append_cons_of_mem hclosed
          refine placeholder e rest he (ih rest.length ?_ rest rfl)
          rw [← hlength, List.length_cons, List.length_append, List.length_cons]
          omega
        · exact unclosed t hclosed
      · refine plain c t hc (ih t.length ?_ t rfl)
        rw [← hlength]
        exact Nat.lt_succ_self _

/-- What a placeholder around some text shows. -/
def fieldValue (e : Text) : Text := if e = [] then ['\x7b', '\x7d'] else placeholderValue e

/-- A brace that never closes is given back with all that stands behind it. -/
theorem fillFrom_of_notMem (he : '\x7d' ∉ e) (inner : Text) :
    fillFrom (some inner) e = '\x7b' :: (inner.reverse ++ e) := by
  induction e generalizing inner with
  | nil => rw [fillFrom, List.append_nil]
  | cons c e ih =>
    obtain ⟨hc, he⟩ := List.ne_and_not_mem_of_not_mem_cons he
    rw [fillFrom, if_neg hc.symm, ih he, List.reverse_cons, List.append_assoc]
    rfl

/-- What has been held back since a brace opened is shown as a field when it closes. -/
theorem fillFrom_append_cons (he : '\x7d' ∉ e) (inner t : Text) :
    fillFrom (some inner) (e ++ '\x7d' :: t) =
      fieldValue (inner.reverse ++ e) ++ fillPlaceholders t := by
  induction e generalizing inner with
  | nil =>
    rw [List.nil_append, List.append_nil, fillFrom, if_pos rfl, fieldValue]
    refine congrArg (· ++ _) (if_congr ?_ rfl rfl)
    exact List.reverse_eq_nil_iff.symm
  | cons c e ih =>
    obtain ⟨hc, he⟩ := List.ne_and_not_mem_of_not_mem_cons he
    rw [List.cons_append, fillFrom, if_neg hc.symm, ih he, List.reverse_cons, List.append_assoc]
    rfl

theorem fillPlaceholders_cons (hc : c ≠ '\x7b') (t : Text) :
    fillPlaceholders (c :: t) = c :: fillPlaceholders t := by
  rw [fillPlaceholders, fillFrom, if_neg hc]
  rfl

/-- The next closing brace ends a field, whatever opens in between. -/
theorem fillPlaceholders_field (he : '\x7d' ∉ e) (t : Text) :
    fillPlaceholders ('\x7b' :: (e ++ '\x7d' :: t)) = fieldValue e ++ fillPlaceholders t := by
  rw [fillPlaceholders, fillFrom, if_pos rfl, fillFrom_append_cons he]
  rfl

/-- Without a closing brace there is no field. -/
theorem fillPlaceholders_unclosed (he : '\x7d' ∉ e) :
    fillPlaceholders ('\x7b' :: e) = '\x7b' :: e := by
  rw [fillPlaceholders, fillFrom, if_pos rfl, fillFrom_of_notMem he]
  rfl

/-! ## Places where no brace is open -/

/-- Every brace that opens in a text has one that closes behind it. -/
def Closed (t : Text) : Prop :=
  ∀ before behind, t = before ++ '\x7b' :: behind → '\x7d' ∈ behind

theorem Closed.nil : Closed [] := fun before behind h => by simp at h

/-- What is closed stays so when something in front is taken away. -/
theorem Closed.of_append (h : Closed (before ++ behind)) : Closed behind := by
  rintro x y rfl
  exact h (before ++ x) y (by rw [List.append_assoc])

theorem Closed.cons (hc : c ≠ '\x7b') (h : Closed t) : Closed (c :: t) := by
  intro x y hxy
  rcases List.cons_eq_append_iff.mp hxy with ⟨rfl, hfirst⟩ | ⟨x', rfl, hrest⟩
  · exact absurd (List.cons_eq_cons.mp hfirst).1.symm hc
  · exact h x' y hrest

theorem Closed.field (h : Closed t) : Closed ('\x7b' :: (e ++ '\x7d' :: t)) := by
  intro x y hxy
  have hsplit : ('\x7b' :: e) ++ '\x7d' :: t = x ++ '\x7b' :: y := hxy
  rcases List.append_eq_append_iff.mp hsplit with ⟨rest, rfl, hrest⟩ | ⟨rest, -, hrest⟩
  · rcases List.cons_eq_append_iff.mp hrest with ⟨-, hfirst⟩ | ⟨rest', rfl, hbehind⟩
    · exact absurd (List.cons_eq_cons.mp hfirst).1 (by decide)
    · exact h rest' y hbehind
  · rcases List.cons_eq_append_iff.mp hrest with ⟨rfl, hfirst⟩ | ⟨rest', rfl, hbehind⟩
    · exact absurd (List.cons_eq_cons.mp hfirst).1 (by decide)
    · exact hbehind ▸ by simp

/-- **Filling goes piece by piece**: where no brace is open, both sides are filled on their own. -/
theorem fillPlaceholders_append (h : Closed before) (behind : Text) :
    fillPlaceholders (before ++ behind) = fillPlaceholders before ++ fillPlaceholders behind := by
  induction before using braceInduction with
  | empty => rfl
  | plain c t hc ih =>
    have ht : Closed t := Closed.of_append (show Closed ([c] ++ t) from h)
    rw [List.cons_append, fillPlaceholders_cons hc, fillPlaceholders_cons hc, List.cons_append,
      ih ht]
  | placeholder e t he ih =>
    have hsplit : '\x7b' :: (e ++ '\x7d' :: t) = ('\x7b' :: e ++ ['\x7d']) ++ t := by simp
    have ht : Closed t := Closed.of_append (hsplit ▸ h)
    rw [fillPlaceholders_field he, List.append_assoc, ← ih ht, ← fillPlaceholders_field he]
    simp
  | unclosed e he => exact absurd (h [] e rfl) he

/-! ## What a placeholder shows -/

/-- What placeholders show that is not their own text. -/
def fixedValues : List Text := [['\x7b', '\x7d'], "SUM_VALUE", "AVG_VALUE"]

/-- A field shows one of few fixed values, or itself. -/
theorem fieldValue_cases (e : Text) : fieldValue e ∈ fixedValues ∨ fieldValue e = Text.trim e := by
  unfold fieldValue placeholderValue
  dsimp only
  split
  · exact .inl (by decide)
  · split
    · exact .inl (by decide)
    · split
      · exact .inl (by decide)
      · exact .inr rfl

/-- A placeholder shows no written break but one that stands in it. -/
theorem not_infix_fieldValue (h : ¬ breakMark <:+: e) : ¬ breakMark <:+: fieldValue e := by
  have hfixed : ∀ value ∈ fixedValues, ¬ breakMark <:+: value := by decide
  rcases fieldValue_cases e with hvalue | hvalue
  · exact hfixed _ hvalue
  · rw [hvalue]
    exact fun hmark => h (hmark.trans (Text.trim_infix e))

theorem feed_notMem_fieldValue (h : '\n' ∉ e) : '\n' ∉ fieldValue e := by
  have hfixed : ∀ value ∈ fixedValues, '\n' ∉ value := by decide
  rcases fieldValue_cases e with hvalue | hvalue
  · exact hfixed _ hvalue
  · rw [hvalue]
    exact fun hmem => h ((Text.trim_infix e).subset hmem)

/-- Filling placeholders writes no line feed. -/
theorem feed_notMem_fillPlaceholders (h : '\n' ∉ t) : '\n' ∉ fillPlaceholders t := by
  induction t using braceInduction with
  | empty => exact h
  | plain c t hc ih =>
    obtain ⟨hfirst, ht⟩ := List.ne_and_not_mem_of_not_mem_cons h
    rw [fillPlaceholders_cons hc]
    exact List.not_mem_cons_of_ne_of_not_mem hfirst (ih ht)
  | placeholder e t he ih =>
    rw [fillPlaceholders_field he]
    have hparts : '\n' ∉ e ∧ '\n' ∉ t := by simpa using h
    exact List.not_mem_append (feed_notMem_fieldValue hparts.1) (ih hparts.2)
  | unclosed e he => rwa [fillPlaceholders_unclosed he]

/-! ## Meetings -/

/-- A place of a formatted text at which filling brings a backslash and an `n` together. -/
structure Meets (before behind : Text) : Prop where
  closed : Closed before
  backslash : (fillPlaceholders before).getLast? = some '\\'
  n : (fillPlaceholders behind).head? = some 'n'

/-- Where a backslash and an `n` meet, a break is written. -/
theorem Meets.isInfix (h : Meets before behind) :
    breakMark <:+: fillPlaceholders (before ++ behind) := by
  obtain ⟨x, hx⟩ := List.getLast?_eq_some_iff.mp h.backslash
  obtain ⟨y, hy⟩ := List.head?_eq_some_iff.mp h.n
  exact ⟨x, y, by rw [fillPlaceholders_append h.closed, hx, hy]; simp [breakMark]⟩

/-- A written break in two texts that follow one another is in one of them, or across the two. -/
theorem infix_append_cases (h : breakMark <:+: before ++ behind) :
    breakMark <:+: before ∨ breakMark <:+: behind ∨
      (before.getLast? = some '\\' ∧ behind.head? = some 'n') := by
  rcases List.infix_append_iff.mp h with h | h | ⟨left, right, hmark, ⟨x, rfl⟩, ⟨y, rfl⟩⟩
  · exact .inl h
  · exact .inr (.inl h)
  · rcases List.append_eq_cons_iff.mp hmark.symm with ⟨rfl, rfl⟩ | ⟨left', rfl, hrest⟩
    · exact .inr (.inl ⟨[], y, rfl⟩)
    · rcases List.append_eq_cons_iff.mp hrest.symm with ⟨rfl, rfl⟩ | ⟨left'', rfl, hnone⟩
      · exact .inr (.inr ⟨by simp, rfl⟩)
      · obtain ⟨rfl, rfl⟩ := List.append_eq_nil_iff.mp hnone.symm
        exact .inl ⟨x, [], by simp [breakMark]⟩

/-- **A break that comes about by filling** does so at a place where no brace is open. -/
theorem exists_meeting (h : ¬ breakMark <:+: t) (hfilled : breakMark <:+: fillPlaceholders t) :
    ∃ before behind, t = before ++ behind ∧ Meets before behind := by
  induction t using braceInduction with
  | empty => exact absurd hfilled h
  | plain c t hc ih =>
    have hcons (rest : Text) : fillPlaceholders (c :: rest) = [c] ++ fillPlaceholders rest :=
      fillPlaceholders_cons hc rest
    rw [hcons] at hfilled
    rcases infix_append_cases hfilled with hfilled | hfilled | ⟨hlast, hhead⟩
    · exact absurd (hfilled.trans ⟨[], t, rfl⟩) h
    · obtain ⟨before, behind, rfl, hmeets⟩ := ih (fun ht => h (List.infix_cons ht)) hfilled
      refine ⟨c :: before, behind, rfl, hmeets.closed.cons hc, ?_, hmeets.n⟩
      rw [hcons, List.getLast?_append, hmeets.backslash, Option.some_or]
    · exact ⟨[c], t, rfl, Closed.nil.cons hc, by rwa [hcons], hhead⟩
  | placeholder e t he ih =>
    rw [fillPlaceholders_field he] at hfilled
    rcases infix_append_cases hfilled with hfilled | hfilled | ⟨hlast, hhead⟩
    · refine absurd hfilled (not_infix_fieldValue fun hmark => h ?_)
      exact hmark.trans ⟨['\x7b'], '\x7d' :: t, rfl⟩
    · obtain ⟨before, behind, rfl, hmeets⟩ :=
        ih (fun ht => h (ht.trans ⟨'\x7b' :: (e ++ ['\x7d']), [], by simp⟩)) hfilled
      refine ⟨'\x7b' :: (e ++ '\x7d' :: before), behind, by simp, hmeets.closed.field, ?_, hmeets.n⟩
      rw [fillPlaceholders_field he, List.getLast?_append, hmeets.backslash, Option.some_or]
    · refine ⟨'\x7b' :: (e ++ ['\x7d']), t, by simp, Closed.nil.field, ?_, hhead⟩
      rw [fillPlaceholders_field he]
      exact (List.append_nil (fieldValue e)).symm ▸ hlast
  | unclosed e he => exact absurd (fillPlaceholders_unclosed he ▸ hfilled) h

end Argument
end Workbench
