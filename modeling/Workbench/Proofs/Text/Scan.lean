import Mathlib
import Workbench.Text.Blank
import Workbench.Text.Numeral

/-!
# Proofs/Text/Scan — what is found in a text: marks, blanks and numerals

A mark whose first character is nowhere else in it cannot overlap itself: it is found right behind
any text that does not hold it (`cutFirst_append`).  Blanks at the end of a text do not change what
trimming leaves of it (`trim_append_of_blank`).  A number is read back from its digits
(`count?_ofNat`).
-/

namespace Workbench.Text

/-! ## Marks -/

variable {m : Char} {mark t before after : Text}

/-- A mark in front of a text is dropped. -/
theorem dropMark?_append (mark t : Text) : dropMark? mark (mark ++ t) = some t :=
  dropMark?_eq_some.mpr rfl

/-- A mark is mentioned where it stands. -/
theorem mentions_iff (h : mark ≠ []) : mentions mark t = true ↔ mark <:+: t := by
  induction t with
  | nil => simp [mentions, cutFirst, h]
  | cons c t ih =>
    rw [List.infix_cons_iff, ← ih, mentions, mentions, cutFirst]
    cases hdrop : dropMark? mark (c :: t) with
    | some rest =>
      have : mark <+: c :: t := ⟨rest, (dropMark?_eq_some.mp hdrop).symm⟩
      simp [this]
    | none =>
      have : ¬ mark <+: c :: t := by
        rintro ⟨rest, hrest⟩
        rw [← hrest, dropMark?_append] at hdrop
        cases hdrop
      simp [this]

/-- A text does not mention a mark if the mark stands nowhere in it. -/
theorem not_mentions_iff (h : mark ≠ []) : mentions mark t = false ↔ ¬ mark <:+: t := by
  rw [← mentions_iff h, Bool.not_eq_true]

theorem cutFirst_eq_none (h : mentions mark t = false) : cutFirst mark t = none := by
  rwa [mentions, Option.isSome_eq_false_iff, Option.isNone_iff_eq_none] at h

/-- A mark that begins with a character of its own is found behind a text that does not hold
it. -/
theorem cutFirst_append (hm : m ∉ mark) (h : ¬ (m :: mark) <:+: before) :
    cutFirst (m :: mark) (before ++ (m :: mark ++ after)) = some (before, after) := by
  induction before with
  | nil =>
    rw [List.nil_append, List.cons_append, cutFirst, ← List.cons_append, dropMark?_append]
  | cons c before ih =>
    have hnext : dropMark? (m :: mark) (c :: before ++ (m :: mark ++ after)) = none := by
      rw [Option.eq_none_iff_forall_ne_some]
      intro rest hrest
      rcases List.append_eq_append_iff.mp (dropMark?_eq_some.mp hrest) with
        ⟨left, hmark, hrest⟩ | ⟨left, hbefore, -⟩
      · -- the mark found here would reach into the one behind `before`
        cases left with
        | nil =>
          rw [List.append_nil] at hmark
          exact h (hmark ▸ List.infix_refl _)
        | cons x left =>
          obtain ⟨rfl, -⟩ := List.cons_eq_cons.mp hrest
          obtain ⟨-, rfl⟩ := List.cons_eq_cons.mp hmark
          exact hm (by simp)
      · exact h (hbefore ▸ (List.prefix_append _ _).isInfix)
    rw [List.cons_append, cutFirst, ← List.cons_append, hnext,
      ih fun hwithin => h (List.infix_cons hwithin)]
    rfl

/-- A mark does not reach into a text that does not hold its last character. -/
theorem infix_of_infix_append {s : Text} (h : mark ++ [m] <:+: s ++ t) (hm : m ∉ t) :
    mark ++ [m] <:+: s := by
  obtain ⟨before, after, h⟩ := h
  have hsplit : (before ++ mark) ++ m :: after = s ++ t := by simpa using h
  rcases List.append_eq_append_iff.mp hsplit with ⟨left, rfl, hleft⟩ | ⟨left, -, hleft⟩
  · cases left with
    | nil =>
      obtain rfl : m :: after = t := hleft
      exact absurd List.mem_cons_self hm
    | cons c left =>
      obtain ⟨rfl, -⟩ := List.cons_eq_cons.mp hleft
      exact ⟨before, left, by simp⟩
  · exact absurd (hleft ▸ List.mem_append_cons_self) hm

/-! ## Blanks -/

/-- What is left begins with something that is to be kept. -/
theorem head?_dropWhile (p : Char → Bool) (t : Text) : ∀ c ∈ (t.dropWhile p).head?, p c = false := by
  intro c hc
  have hfirst := List.head?_dropWhile_not p t
  rw [Option.mem_def.mp hc] at hfirst
  simpa using hfirst

theorem trimEnd_append_of_blank {s : Text} (t : Text) (h : ∀ c ∈ s, isBlank c) :
    trimEnd (t ++ s) = trimEnd t := by
  rw [trimEnd, trimEnd, List.reverse_append, List.dropWhile_append_of_pos (by simpa using h)]

/-- Blanks behind a text are trimmed with its own. -/
theorem trim_append_of_blank {s : Text} (t : Text) (h : ∀ c ∈ s, isBlank c) :
    trim (t ++ s) = trim t := by
  rw [trim, trim, trimStart, trimStart, List.dropWhile_append]
  split
  · next hblank =>
    rw [List.isEmpty_iff.mp hblank, List.dropWhile_eq_nil_iff.mpr h]
  · exact trimEnd_append_of_blank _ h

/-- A blank in front of a text is trimmed with its own. -/
theorem trim_cons_of_blank {c : Char} (t : Text) (h : isBlank c) : trim (c :: t) = trim t := by
  rw [trim, trim, trimStart, trimStart, List.dropWhile_cons_of_pos h]

/-- A text with something on it and no blank at either end. -/
structure Tight (t : Text) : Prop where
  nonempty : t ≠ []
  first : ∀ c ∈ t.head?, isBlank c = false
  last : ∀ c ∈ t.getLast?, isBlank c = false

theorem Tight.of_forall {t : Text} (ht : t ≠ []) (h : ∀ c ∈ t, isBlank c = false) : Tight t where
  nonempty := ht
  first c hc := h c (List.mem_of_head? hc)
  last c hc := h c (List.mem_of_getLast? hc)

/-- Only the two ends of a text have to be no blanks. -/
theorem Tight.of_ends {c d : Char} (hc : isBlank c = false) (hd : isBlank d = false) (t : Text) :
    Tight (c :: t ++ [d]) where
  nonempty := by simp
  first := by simpa using hc
  last e he := by
    rw [List.getLast?_concat] at he
    exact Option.some.inj he ▸ hd

/-- Whatever stands between two texts. -/
theorem Tight.append {s t : Text} (hs : Tight s) (between : Text) (ht : Tight t) :
    Tight (s ++ between ++ t) where
  nonempty := by simp [hs.nonempty]
  first := by simpa [List.head?_append_of_ne_nil _ hs.nonempty] using hs.first
  last := by simpa [List.getLast?_append_of_ne_nil _ ht.nonempty, ht.nonempty] using ht.last

/-- Nothing is trimmed where no blank is at the ends. -/
theorem Tight.trim_eq {t : Text} (h : Tight t) : trim t = t := by
  have hkeep {s : Text} (hs : ∀ c ∈ s.head?, isBlank c = false) : s.dropWhile isBlank = s := by
    cases s with
    | nil => rfl
    | cons c s => rw [List.dropWhile_cons_of_neg (by simp [hs c rfl])]
  rw [trim, trimStart, hkeep h.first, trimEnd, hkeep (by simpa using h.last), List.reverse_reverse]

theorem trim_eq_self {t : Text} (h : ∀ c ∈ t, isBlank c = false) : trim t = t := by
  by_cases ht : t = []
  · rw [ht, trim_nil]
  · exact (Tight.of_forall ht h).trim_eq

/-- A trimmed text stands in the text as it is. -/
theorem trim_infix (t : Text) : trim t <:+: t := by
  have hend : trimEnd (trimStart t) <+: trimStart t := by
    rw [trimEnd, ← List.reverse_suffix, List.reverse_reverse]
    exact List.dropWhile_suffix _
  exact hend.isInfix.trans (List.dropWhile_suffix _).isInfix

theorem Tight.reverse {t : Text} (h : Tight t) : Tight t.reverse where
  nonempty := by simpa using h.nonempty
  first := by simpa using h.last
  last := by simpa using h.first

/-- A mark without blanks at its ends is not touched by trimming. -/
theorem Tight.infix_dropWhile (hmark : Tight mark) (h : mark <:+: t) :
    mark <:+: t.dropWhile isBlank := by
  induction t with
  | nil => exact h
  | cons c t ih =>
    by_cases hc : isBlank c = true
    · rw [List.dropWhile_cons_of_pos hc]
      refine ih ((List.infix_cons_iff.mp h).resolve_left ?_)
      rintro ⟨rest, hrest⟩
      have hhead : mark.head? = some c := by
        rw [← List.head?_append_of_ne_nil _ hmark.nonempty, hrest]
        rfl
      rw [hmark.first c hhead] at hc
      cases hc
    · rwa [List.dropWhile_cons_of_neg hc]

/-- What has no blank at its ends is found in a text if it is found in the trimmed one. -/
theorem Tight.infix_trim_iff (hmark : Tight mark) : mark <:+: trim t ↔ mark <:+: t := by
  refine ⟨fun h => h.trans (Text.trim_infix t), fun h => ?_⟩
  have hstart : mark <:+: trimStart t := hmark.infix_dropWhile h
  rw [trim, trimEnd, ← List.reverse_infix, List.reverse_reverse]
  exact hmark.reverse.infix_dropWhile (List.reverse_infix.mpr hstart)

/-- Only blanks are trimmed. -/
theorem mem_trim {c : Char} (h : c ∈ t) (hc : isBlank c = false) : c ∈ trim t := by
  have hkeep {s : Text} (hs : c ∈ s) : c ∈ s.dropWhile isBlank := by
    rw [← List.takeWhile_append_dropWhile (p := isBlank) (l := s)] at hs
    refine (List.mem_append.mp hs).resolve_left fun hmem => ?_
    rw [List.all_eq_true.mp List.all_takeWhile c hmem] at hc
    cases hc
  exact List.mem_reverse.mpr (hkeep (List.mem_reverse.mpr (hkeep h)))

/-! ## Numerals -/

theorem isDigit_of_mem_ofNat {n : Nat} {c : Char} (h : c ∈ ofNat n) : c.isDigit :=
  Nat.isDigit_of_mem_toDigits (by decide) (by decide) h

/-- A number is read back from its digits. -/
theorem digitsValue_ofNat (n : Nat) : digitsValue (ofNat n) = n := by
  have hvalue : digitsValue (ofNat n) = Nat.ofDigitChars 10 (Nat.toDigits 10 n) 0 := by
    rw [digitsValue, ofNat, Nat.ofDigitChars_eq_foldl]
  rw [hvalue, Nat.ofDigitChars_ten_toDigits]

/-- A count is read back from its digits. -/
theorem count?_ofNat {n : Nat} (h : n < 2 ^ 64) : count? (ofNat n) = some n := by
  have hplus : dropMark? "+" (ofNat n) = none := by
    rw [Option.eq_none_iff_forall_ne_some]
    intro rest hrest
    have hmem : '+' ∈ ofNat n := by simp [dropMark?_eq_some.mp hrest]
    exact absurd (isDigit_of_mem_ofNat hmem) (by decide)
  have hdigits : (ofNat n).all Char.isDigit := List.all_eq_true.mpr fun c => isDigit_of_mem_ofNat
  rw [count?, hplus, Option.getD_none, digitsValue_ofNat,
    if_pos ⟨Nat.toDigits_ne_nil, hdigits, h⟩]

theorem isBlank_of_isDigit {c : Char} (h : c.isDigit) : isBlank c = false := by
  obtain ⟨hlow, hhigh⟩ : 48 ≤ c.toNat ∧ c.toNat ≤ 57 := Char.isDigit_iff_toNat.mp h
  simp only [isBlank, CodeRanges.holds, blankRanges, List.any_cons, List.any_nil, Bool.or_false,
    Bool.or_eq_false_iff, Bool.and_eq_false_iff, decide_eq_false_iff_not]
  omega

/-- A count is read back from its digits behind a space. -/
theorem count?_trim_ofNat {n : Nat} (h : n < 2 ^ 64) : count? (trim (' ' :: ofNat n)) = some n := by
  have hblank : ∀ c ∈ ofNat n, isBlank c = false := fun c hc =>
    isBlank_of_isDigit (isDigit_of_mem_ofNat hc)
  rw [trim_cons_of_blank _ (by decide), trim_eq_self hblank, count?_ofNat h]

/-- Nothing but digits and a plus sign is read as a count. -/
theorem plus_or_isDigit_of_count? {n : Nat} {c : Char} (h : count? t = some n) (hc : c ∈ t) :
    c = '+' ∨ c.isDigit := by
  rw [count?] at h
  split at h
  · next hdigits =>
    cases hplus : dropMark? "+" t with
    | none =>
      rw [hplus] at hdigits
      exact .inr (List.all_eq_true.mp hdigits.2.1 c hc)
    | some rest =>
      rw [hplus] at hdigits
      obtain rfl : t = '+' :: rest := dropMark?_eq_some.mp hplus
      exact (List.mem_cons.mp hc).imp_right (List.all_eq_true.mp hdigits.2.1 c)
  · cases h

end Workbench.Text
