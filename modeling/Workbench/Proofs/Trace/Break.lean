import Mathlib
import Workbench.Trace.Argument

/-!
# Proofs/Trace/Break — where a line break is written, and where one comes about

A line break is written as a backslash and an `n`.  Decoding finds these two next to each other, and
by then quotes were dropped and operands joined.  Joining brings nothing together that was apart: it
leaves at least a space.  Dropping quotes does; so a break comes about exactly where nothing but
quotes stands between a backslash and an `n` (`unquoted_eq_append_iff`).
-/

namespace Workbench.Argument

variable {t before behind : Text}

/-! ## Decoding -/

theorem breakLines_cons {c : Char} (h : ¬ (c = '\\' ∧ t.head? = some 'n')) :
    breakLines (c :: t) = c :: breakLines t := by
  conv_lhs => unfold breakLines
  split
  · next heq => cases heq
  · next heq =>
    obtain ⟨rfl, rfl⟩ := List.cons_eq_cons.mp heq
    exact absurd ⟨rfl, rfl⟩ h
  · next heq =>
    obtain ⟨rfl, rfl⟩ := List.cons_eq_cons.mp heq
    rfl

/-- A break that is written is decoded, and what stands before and behind it is on its own. -/
theorem breakLines_append (before behind : Text) :
    breakLines (before ++ '\\' :: 'n' :: behind) =
      breakLines before ++ '\n' :: breakLines behind := by
  induction before using breakLines.induct with
  | case1 => rfl
  | case2 before ih => exact congrArg ('\n' :: ·) ih
  | case3 c before hpair ih =>
    have hhead : ¬ (c = '\\' ∧ before.head? = some 'n') := by
      rintro ⟨rfl, hn⟩
      obtain ⟨rest, rfl⟩ := List.head?_eq_some_iff.mp hn
      exact hpair rest rfl rfl
    have hnext : ¬ (c = '\\' ∧ (before ++ '\\' :: 'n' :: behind).head? = some 'n') := by
      cases before with
      | nil => simp
      | cons => exact hhead
    rw [List.cons_append, breakLines_cons hnext, breakLines_cons hhead, ih]
    rfl

/-- What is decoded to a line break is one that was written. -/
theorem exists_of_breakLines (ht : '\n' ∉ t) (h : breakLines t = before ++ '\n' :: behind) :
    ∃ x y, t = x ++ '\\' :: 'n' :: y ∧ breakLines x = before ∧ breakLines y = behind := by
  induction t using breakLines.induct generalizing before with
  | case1 => simp [breakLines] at h
  | case2 t ih =>
    rw [breakLines] at h
    rcases List.cons_eq_append_iff.mp h with ⟨rfl, hbehind⟩ | ⟨before', rfl, hrest⟩
    · exact ⟨[], t, rfl, rfl, (List.cons_eq_cons.mp hbehind).2.symm⟩
    · obtain ⟨x, y, rfl, rfl, rfl⟩ := ih (fun hmem => ht (by simp [hmem])) hrest
      exact ⟨'\\' :: 'n' :: x, y, rfl, rfl, rfl⟩
  | case3 c t hpair ih =>
    have hhead : ¬ (c = '\\' ∧ t.head? = some 'n') := by
      rintro ⟨rfl, hn⟩
      obtain ⟨rest, rfl⟩ := List.head?_eq_some_iff.mp hn
      exact hpair rest rfl rfl
    rw [breakLines_cons hhead] at h
    rcases List.cons_eq_append_iff.mp h with ⟨rfl, hc⟩ | ⟨before', rfl, hrest⟩
    · obtain ⟨rfl, -⟩ := List.cons_eq_cons.mp hc
      exact absurd List.mem_cons_self ht
    · obtain ⟨x, y, rfl, rfl, rfl⟩ := ih (fun hmem => ht (List.mem_cons_of_mem c hmem)) hrest
      refine ⟨c :: x, y, rfl, breakLines_cons ?_, rfl⟩
      cases x with
      | nil => simp
      | cons => exact hhead

theorem breakLines_eq_append_iff (ht : '\n' ∉ t) :
    breakLines t = before ++ '\n' :: behind ↔
      ∃ x y, t = x ++ '\\' :: 'n' :: y ∧ breakLines x = before ∧ breakLines y = behind := by
  refine ⟨exists_of_breakLines ht, ?_⟩
  rintro ⟨x, y, rfl, rfl, rfl⟩
  exact breakLines_append x y

/-- The two characters that stand for a line break. -/
def breakMark : Text := ['\\', 'n']

theorem feed_mem_breakLines_iff (ht : '\n' ∉ t) : '\n' ∈ breakLines t ↔ breakMark <:+: t := by
  constructor
  · intro hmem
    obtain ⟨before, behind, h⟩ := List.append_of_mem hmem
    obtain ⟨x, y, rfl, -, -⟩ := exists_of_breakLines ht h
    exact ⟨x, y, by simp [breakMark]⟩
  · rintro ⟨x, y, rfl⟩
    have hsplit : x ++ breakMark ++ y = x ++ '\\' :: 'n' :: y := by simp [breakMark]
    rw [hsplit, breakLines_append]
    exact List.mem_append_cons_self

/-! ## Joining -/

/-- A character that joining leaves where it is. -/
def IsSolid (c : Char) : Prop := Text.isBlank c = false ∧ c ≠ '+'

variable {c : Char} {held : Option Text}

theorem IsSolid.joinFrom_cons (hc : IsSolid c) (held : Option Text) (t : Text) :
    joinFrom held (c :: t) = (held.getD []).reverse ++ c :: joinFrom (some []) t := by
  rw [joinFrom, if_neg hc.2, if_neg (Bool.eq_false_iff.mp hc.1)]

/-- Operands are joined on either side of a solid character. -/
theorem IsSolid.joinFrom_append (hc : IsSolid c) (held : Option Text) (before behind : Text) :
    joinFrom held (before ++ c :: behind) =
      joinFrom held before ++ c :: joinFrom (some []) behind := by
  induction before generalizing held with
  | nil =>
    rw [List.nil_append, hc.joinFrom_cons, joinFrom]
  | cons d before ih =>
    rw [List.cons_append, joinFrom, joinFrom]
    split
    · rw [ih, List.cons_append]
    · split
      · exact ih _
      · rw [ih, List.append_assoc, List.cons_append]

/-- A solid character that is there behind the joining was there before it. -/
theorem IsSolid.exists_of_joinFrom (hc : IsSolid c)
    (hheld : ∀ b ∈ held.getD [], Text.isBlank b = true)
    (h : joinFrom held t = before ++ c :: behind) :
    ∃ x y, t = x ++ c :: y ∧ joinFrom held x = before ∧ joinFrom (some []) y = behind := by
  have hne {b : Char} (hb : Text.isBlank b = true) : b ≠ c := fun h => by
    rw [h, hc.1] at hb
    cases hb
  induction t generalizing held before with
  | nil =>
    have hmem : c ∈ (held.getD []).reverse := by
      rw [joinFrom] at h
      exact h ▸ List.mem_append_cons_self
    exact absurd rfl (hne (hheld c (List.mem_reverse.mp hmem)))
  | cons d t ih =>
    rw [joinFrom] at h
    split at h
    · next hplus =>
      rcases List.cons_eq_append_iff.mp h with ⟨-, hspace⟩ | ⟨before', rfl, hrest⟩
      · exact absurd (List.cons_eq_cons.mp hspace).1.symm (hne (by decide))
      · obtain ⟨x, y, rfl, rfl, rfl⟩ := ih (by simp) hrest
        refine ⟨d :: x, y, rfl, ?_, rfl⟩
        rw [joinFrom, if_pos hplus]
    · next hplus =>
      split at h
      · next hblank =>
        have hmore : ∀ b ∈ (held.map (d :: ·)).getD [], Text.isBlank b = true := by
          cases held with
          | none => exact nofun
          | some held => exact List.forall_mem_cons.mpr ⟨hblank, hheld⟩
        obtain ⟨x, y, rfl, rfl, rfl⟩ := ih hmore h
        refine ⟨d :: x, y, rfl, ?_, rfl⟩
        rw [joinFrom, if_neg hplus, if_pos hblank]
      · next hblank =>
        have hd : IsSolid d := ⟨Bool.eq_false_iff.mpr hblank, hplus⟩
        rcases List.append_eq_append_iff.mp h with ⟨rest, rfl, hrest⟩ | ⟨rest, hheld', hrest⟩
        · rcases List.cons_eq_append_iff.mp hrest with ⟨rfl, hfirst⟩ | ⟨rest', rfl, hmore⟩
          · obtain ⟨rfl, rfl⟩ := List.cons_eq_cons.mp hfirst
            exact ⟨[], t, rfl, by rw [joinFrom, List.append_nil], rfl⟩
          · obtain ⟨x, y, rfl, rfl, rfl⟩ := ih (by simp) hmore
            exact ⟨d :: x, y, rfl, hd.joinFrom_cons held x, rfl⟩
        · -- the character would be among the blanks that were held back
          cases rest with
          | nil =>
            obtain ⟨rfl, rfl⟩ := List.cons_eq_cons.mp hrest
            exact ⟨[], t, rfl, by rw [joinFrom, hheld', List.append_nil], rfl⟩
          | cons b rest =>
            obtain ⟨rfl, -⟩ := List.cons_eq_cons.mp hrest
            have hmem : c ∈ (held.getD []).reverse := by rw [hheld']; simp
            exact absurd rfl (hne (hheld c (List.mem_reverse.mp hmem)))

/-- Nothing is left of a text only if there is no text. -/
theorem joinFrom_eq_nil {held : Text} (h : joinFrom (some held) t = []) : held = [] ∧ t = [] := by
  induction t generalizing held with
  | nil => simpa [joinFrom] using h
  | cons d t ih =>
    rw [joinFrom] at h
    split at h
    · cases h
    · split at h
      · cases (ih h).1
      · simp at h

/-- **Joining brings nothing together**: a break that is written behind it was written before. -/
theorem joinOperands_eq_append_iff :
    joinOperands t = before ++ '\\' :: 'n' :: behind ↔
      ∃ x y, t = x ++ '\\' :: 'n' :: y ∧ joinOperands x = before ∧ joinOperands y = behind := by
  have hbackslash : IsSolid '\\' := ⟨by decide, by decide⟩
  have hn : IsSolid 'n' := ⟨by decide, by decide⟩
  constructor
  · intro h
    obtain ⟨x, rest, rfl, rfl, hrest⟩ := hbackslash.exists_of_joinFrom (by simp) h
    rw [← List.nil_append ('n' :: behind)] at hrest
    obtain ⟨between, y, rfl, hbetween, rfl⟩ := hn.exists_of_joinFrom (by simp) hrest
    obtain ⟨-, rfl⟩ := joinFrom_eq_nil hbetween
    exact ⟨x, y, rfl, rfl, rfl⟩
  · rintro ⟨x, y, rfl, rfl, rfl⟩
    rw [joinOperands, hbackslash.joinFrom_append, hn.joinFrom_cons]
    rfl

/-! ## Dropping quotes -/

/-- A break is written behind the dropping of quotes where quotes alone stood in it. -/
theorem dropQuotes_eq_append_iff :
    dropQuotes t = before ++ '\\' :: 'n' :: behind ↔
      ∃ x quotes y, t = x ++ '\\' :: (quotes ++ 'n' :: y) ∧ (∀ q ∈ quotes, isQuote q = true) ∧
        dropQuotes x = before ∧ dropQuotes y = behind := by
  constructor
  · intro h
    obtain ⟨x, rest, rfl, rfl, hrest⟩ := List.filter_eq_append_iff.mp h
    obtain ⟨more, rest, rfl, hmore, -, hrest⟩ := List.filter_eq_cons_iff.mp hrest
    obtain ⟨quotes, y, rfl, hquotes, -, rfl⟩ := List.filter_eq_cons_iff.mp hrest
    refine ⟨x ++ more, quotes, y, by simp, by simpa using hquotes, ?_, rfl⟩
    rw [dropQuotes, List.filter_append, List.filter_eq_nil_iff.mpr hmore, List.append_nil]
  · rintro ⟨x, quotes, y, rfl, hquotes, rfl, rfl⟩
    have hnone : quotes.filter (fun c => !isQuote c) = [] :=
      List.filter_eq_nil_iff.mpr fun q hq => by simp [hquotes q hq]
    have hbackslash : isQuote '\\' = false := by decide
    have hn : isQuote 'n' = false := by decide
    simp [dropQuotes, List.filter_append, hnone, hbackslash, hn]

/-! ## All of it -/

/-- What a text shows once quotes are dropped, operands joined and breaks decoded. -/
def unquoted (t : Text) : Text := breakLines (joinOperands (dropQuotes t))

/-- Joining adds nothing but spaces. -/
theorem mem_joinFrom {d : Char} (h : d ∈ joinFrom held t) :
    d ∈ held.getD [] ∨ d ∈ t ∨ d = ' ' := by
  induction t generalizing held with
  | nil => exact .inl (by simpa [joinFrom] using h)
  | cons c t ih =>
    rw [joinFrom] at h
    split at h
    · grind
    · split at h
      · cases held <;> grind
      · grind

theorem feed_notMem_joined (ht : '\n' ∉ t) : '\n' ∉ joinOperands (dropQuotes t) := by
  intro h
  rcases mem_joinFrom h with h | h | h
  · cases h
  · exact ht (List.mem_of_mem_filter h)
  · cases h

/-- **Where a line break comes about**: a backslash and an `n` with nothing but quotes between
them, and nowhere else. -/
theorem unquoted_eq_append_iff (ht : '\n' ∉ t) :
    unquoted t = before ++ '\n' :: behind ↔
      ∃ x quotes y, t = x ++ '\\' :: (quotes ++ 'n' :: y) ∧ (∀ q ∈ quotes, isQuote q = true) ∧
        unquoted x = before ∧ unquoted y = behind := by
  rw [unquoted, breakLines_eq_append_iff (feed_notMem_joined ht)]
  constructor
  · rintro ⟨x, y, hjoined, rfl, rfl⟩
    obtain ⟨x, y, hdropped, rfl, rfl⟩ := joinOperands_eq_append_iff.mp hjoined
    obtain ⟨x, quotes, y, rfl, hquotes, rfl, rfl⟩ := dropQuotes_eq_append_iff.mp hdropped
    exact ⟨x, quotes, y, rfl, hquotes, rfl, rfl⟩
  · rintro ⟨x, quotes, y, rfl, hquotes, rfl, rfl⟩
    refine ⟨_, _, joinOperands_eq_append_iff.mpr ⟨_, _, ?_, rfl, rfl⟩, rfl, rfl⟩
    exact dropQuotes_eq_append_iff.mpr ⟨x, quotes, y, rfl, hquotes, rfl, rfl⟩

end Workbench.Argument
