import Workbench.Proofs.Text.Replace
import Workbench.Proofs.Trace.Placeholder

/-!
# Proofs/Trace/Filling — what stands for the placeholders of a text

A placeholder is a brace, something, and the next closing brace; whatever it encloses, further
opening braces and line feeds included, is its expression.  To fill a text is to replace all of its
placeholders (`Replaces placeholder`), and it is also to scan it by one rule for each kind of brace
(`Fills`); the two are the same (`placeholders_filled`).
-/

namespace Workbench.Argument

open Text (Pattern Replaces Tight)

variable {c : Char} {e t shown : Text}

/-! ## Placeholders -/

/-- What an expression shows: a sum, else a quotient, else itself without the blanks around it. -/
inductive ExpressionShows (e : Text) : Text → Prop
  | sum : "sum(".toList <:+: e → ExpressionShows e "SUM_VALUE"
  | quotient : ¬ "sum(".toList <:+: e → '/' ∈ e → ExpressionShows e "AVG_VALUE"
  | itself : ¬ "sum(".toList <:+: e → '/' ∉ e → ExpressionShows e (Text.trim e)

/-- An expression is trimmed before it is looked at, and shows what it shows untrimmed. -/
theorem expressionShows_iff : ExpressionShows e shown ↔ placeholderValue e = shown := by
  have hsum : Text.mentions "sum(" (Text.trim e) = true ↔ "sum(".toList <:+: e := by
    have htight : Tight "sum(" := Tight.of_ends (by decide) (by decide) ['u', 'm']
    rw [Text.mentions_iff htight.nonempty, htight.infix_trim_iff]
  have hquotient : Text.mentions "/" (Text.trim e) = true ↔ '/' ∈ e := by
    have htight : Tight "/" := Tight.of_forall (by decide) (List.forall_mem_singleton.mpr (by decide))
    rw [Text.mentions_iff htight.nonempty, htight.infix_trim_iff]
    exact List.singleton_infix_iff '/' e
  have hvalue : placeholderValue e = if "sum(".toList <:+: e then "SUM_VALUE".toList
      else if '/' ∈ e then "AVG_VALUE".toList else Text.trim e := by
    simp only [placeholderValue, hsum, hquotient]
  rw [hvalue]
  constructor
  · rintro (h | ⟨h, h'⟩ | ⟨h, h'⟩)
    · rw [if_pos h]
    · rw [if_neg h, if_pos h']
    · rw [if_neg h, if_neg h']
  · rintro rfl
    split
    · next h => exact .sum h
    · next h =>
      split
      · next h' => exact .quotient h h'
      · next h' => exact .itself h h'

/-- The pattern of placeholders: something between an opening brace and the next closing one. -/
def placeholder : Pattern := fun taken _ shown =>
  ∃ e, e ≠ [] ∧ '}' ∉ e ∧ taken = '{' :: (e ++ ['}']) ∧ ExpressionShows e shown

/-- A placeholder ends in one place only and shows one thing only. -/
theorem definite_placeholder : placeholder.Definite where
  nonempty := by
    rintro _ _ _ ⟨e, -, -, rfl, -⟩
    exact List.cons_ne_nil _ _
  unique := by
    rintro _ behind _ _ behind' _ ⟨e, -, he, rfl, hshown⟩ ⟨e', -, he', rfl, hshown'⟩ h
    have hsplit : e ++ '}' :: behind = e' ++ '}' :: behind' := by simpa using h
    obtain ⟨rfl, -⟩ := Text.append_cons_inj he he' hsplit
    refine ⟨rfl, ?_⟩
    rw [← expressionShows_iff.mp hshown, ← expressionShows_iff.mp hshown']

theorem not_begins_of_ne (hc : c ≠ '{') : ¬ placeholder.Begins (c :: t) := by
  rintro ⟨_, behind, _, hsplit, e, -, -, rfl, -⟩
  exact hc (List.cons_eq_cons.mp hsplit).1

/-- No placeholder begins at a brace that is not closed. -/
theorem not_begins_unclosed (ht : '}' ∉ t) : ¬ placeholder.Begins ('{' :: t) := by
  rintro ⟨_, behind, _, hsplit, e, -, -, rfl, -⟩
  obtain rfl : t = e ++ ['}'] ++ behind := (List.cons_eq_cons.mp hsplit).2
  exact ht (by simp)

/-- Nothing between two braces is no placeholder. -/
theorem not_begins_bare : ¬ placeholder.Begins ('{' :: '}' :: t) := by
  rintro ⟨_, behind, _, hsplit, e, hne, he, rfl, -⟩
  obtain ⟨d, e, rfl⟩ := List.exists_cons_of_ne_nil hne
  have htail : '}' :: t = d :: (e ++ ['}'] ++ behind) := by simpa using hsplit
  exact he ((List.cons_eq_cons.mp htail).1 ▸ List.mem_cons_self)

theorem fieldValue_of_ne_nil (he : e ≠ []) : fieldValue e = placeholderValue e := if_neg he

/-- A text is filled by replacing its placeholders. -/
theorem replaces_fillPlaceholders (t : Text) : Replaces placeholder t (fillPlaceholders t) := by
  induction t using braceInduction with
  | empty => exact .stop
  | plain c t hc ih =>
    rw [fillPlaceholders_cons hc]
    exact .copy (not_begins_of_ne hc) ih
  | placeholder e t he ih =>
    rw [fillPlaceholders_field he]
    by_cases hne : e = []
    · subst hne
      exact .copy not_begins_bare (.copy (not_begins_of_ne (by decide)) ih)
    · rw [fieldValue_of_ne_nil hne]
      have hmatch : placeholder ('{' :: (e ++ ['}'])) t (placeholderValue e) :=
        ⟨e, hne, he, rfl, expressionShows_iff.mpr rfl⟩
      simpa using Replaces.replace hmatch ih
  | unclosed e he =>
    rw [fillPlaceholders_unclosed he, ← List.append_nil ('{' :: e)]
    refine Replaces.stop.copies fun x c y hsplit => ?_
    rw [List.append_nil]
    rcases List.cons_eq_append_iff.mp hsplit with ⟨-, hfirst⟩ | ⟨x, -, rfl⟩
    · obtain ⟨rfl, rfl⟩ := List.cons_eq_cons.mp hfirst
      exact not_begins_unclosed he
    · by_cases hc : c = '{'
      · subst hc
        exact not_begins_unclosed fun hmem => he (by simp [hmem])
      · exact not_begins_of_ne hc

/-! ## The scan -/

/-- A text and what a scan shows of it: characters are copied, and a brace is filled with all
through the next closing one, unless that follows at once or there is none. -/
inductive Fills : Text → Text → Prop
  /-- At the end of the text. -/
  | stop : Fills [] []
  /-- A character that is no opening brace. -/
  | copy {c : Char} {t shown : Text} : c ≠ '{' → Fills t shown → Fills (c :: t) (c :: shown)
  /-- A brace that is never closed is copied with all that follows. -/
  | unclosed {t : Text} : '}' ∉ t → Fills ('{' :: t) ('{' :: t)
  /-- A brace that is closed at once is copied, and the scan goes on behind it. -/
  | bare {t shown : Text} : Fills ('}' :: t) shown → Fills ('{' :: '}' :: t) ('{' :: shown)
  /-- An expression between braces is replaced, and the scan goes on behind them. -/
  | field {e t value shown : Text} : e ≠ [] → '}' ∉ e → ExpressionShows e value → Fills t shown →
    Fills ('{' :: (e ++ '}' :: t)) (value ++ shown)

/-- By the rules of filling there is one thing to show. -/
theorem Fills.eq_fillPlaceholders (h : Fills t shown) : fillPlaceholders t = shown := by
  induction h with
  | stop => rfl
  | copy hc _ ih => rw [fillPlaceholders_cons hc, ih]
  | unclosed ht => exact fillPlaceholders_unclosed ht
  | @bare t shown _ ih =>
    have hfield : fillPlaceholders ('{' :: '}' :: t) = fieldValue [] ++ fillPlaceholders t :=
      fillPlaceholders_field List.not_mem_nil t
    rw [hfield, ← ih, fillPlaceholders_cons (by decide)]
    rfl
  | field hne he hvalue _ ih =>
    rw [fillPlaceholders_field he, fieldValue_of_ne_nil hne, expressionShows_iff.mp hvalue, ih]

/-- Filling keeps to its rules. -/
theorem fills_fillPlaceholders (t : Text) : Fills t (fillPlaceholders t) := by
  induction t using braceInduction with
  | empty => exact .stop
  | plain c t hc ih =>
    rw [fillPlaceholders_cons hc]
    exact .copy hc ih
  | placeholder e t he ih =>
    rw [fillPlaceholders_field he]
    by_cases hne : e = []
    · subst hne
      exact .bare (.copy (by decide) ih)
    · rw [fieldValue_of_ne_nil hne]
      exact .field hne he (expressionShows_iff.mpr rfl) ih
  | unclosed e he =>
    rw [fillPlaceholders_unclosed he]
    exact .unclosed he

/-- **Filling a text** is the scan, and the scan comes to the same as replacing all placeholders
from left to right. -/
theorem placeholders_filled (t shown : Text) :
    (fillPlaceholders t = shown ↔ Fills t shown) ∧ (Fills t shown ↔ Replaces placeholder t shown) := by
  have hscan : fillPlaceholders t = shown ↔ Fills t shown := by
    constructor
    · rintro rfl
      exact fills_fillPlaceholders t
    · exact Fills.eq_fillPlaceholders
  exact ⟨hscan, hscan.symm.trans
    (Replaces.iff_of_forall definite_placeholder replaces_fillPlaceholders).symm⟩

/-- Braces within braces, around nothing, and never closed. -/
example : fillPlaceholders "\x7b\x7bx\x7d\x7d \x7b\x7d \x7ba\n\x7bsum(b)/2\x7d \x7bc" =
    "\x7bx\x7d \x7b\x7d SUM_VALUE \x7bc".toList := by decide

end Workbench.Argument
