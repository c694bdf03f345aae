import Workbench.Proofs.Trace.Lines
import Workbench.Proofs.Trace.Placeholder

/-!
# Proofs/Trace/Seam — line breaks that nobody wrote

A line that holds no written break can show more than one entry all the same.  In Java's print
calls quotes are dropped before breaks are decoded, and in Python's formatted literals placeholders
are filled before; either can bring a backslash and an `n` together.  A line shows one entry at
most, exactly if that happens nowhere in it, or, in Java, if there is nothing to show on one side
of every such place (`single_entry_iff`).
-/

namespace Workbench

open Argument

namespace Text

/-- Nothing is left of a text if all of it is blank. -/
theorem trim_eq_nil_iff {t : Text} : trim t = [] ↔ ∀ c ∈ t, isBlank c = true := by
  constructor
  · intro h c hc
    by_contra hblank
    exact List.not_mem_nil (h ▸ mem_trim hc (Bool.eq_false_iff.mpr hblank))
  · intro h
    rw [trim, trimStart, List.dropWhile_eq_nil_iff.mpr h]
    rfl

theorem prefix_of_beforeLast {mark : Char} {t before : Text} (h : beforeLast mark t = some before) :
    before <+: t := by
  induction t generalizing before with
  | nil => cases h
  | cons c t ih =>
    rw [beforeLast] at h
    split at h
    · next found hfound =>
      obtain rfl := Option.some.inj h
      exact List.cons_prefix_cons.mpr ⟨rfl, ih hfound⟩
    · split at h
      · obtain rfl := Option.some.inj h
        exact List.nil_prefix
      · cases h

end Text

/-- The argument of a call stands in its line. -/
theorem infix_of_callArgument {opening t argument : Text} {close : Text → Option Text}
    (hclose : ∀ rest argument, close rest = some argument → argument <:+: rest)
    (h : callArgument opening close t = some argument) : argument <:+: t := by
  induction t with
  | nil => cases h
  | cons c t ih =>
    rw [callArgument] at h
    split at h
    · next found hfound =>
      obtain rfl := Option.some.inj h
      obtain ⟨rest, hdrop, hrest⟩ := Option.bind_eq_some_iff.mp hfound
      rw [Text.dropMark?_eq_some.mp hdrop]
      exact (hclose rest _ hrest).trans (List.suffix_append _ _).isInfix
    · exact List.infix_cons (ih h)

namespace Dialect

/-! ## What a line has between its ends -/

variable {line argument t : Text}

/-- The argument of a Python call stands in its line as it is. -/
theorem infix_of_pythonArgument? (h : pythonArgument? line = some argument) : argument <:+: line :=
  infix_of_callArgument (fun _ _ hrest => (Text.prefix_of_beforeLast hrest).isInfix) h

/-- The argument of a Java call stands in its line as it is. -/
theorem infix_of_javaArgument? (h : javaArgument? line = some argument) : argument <:+: line := by
  refine infix_of_callArgument (fun rest argument hrest => ?_) h
  obtain ⟨⟨before, after⟩, hcut, rfl⟩ := Option.map_eq_some_iff.mp hrest
  rw [Text.eq_of_cutFirst hcut, List.append_assoc]
  exact (List.prefix_append _ _).isInfix

theorem literalBody_isInfix (t : Text) : literalBody t <:+: t :=
  (List.dropLast_prefix _).isInfix.trans (List.drop_suffix 2 t).isInfix

theorem stripQuotes_isInfix (t : Text) : stripQuotes t <:+: t := by
  have hopening (t : Text) : dropOpeningQuote t <:+ t := by
    cases t with
    | nil => exact List.suffix_refl _
    | cons c t =>
      rw [dropOpeningQuote]
      split
      · exact List.suffix_cons c t
      · exact List.suffix_refl _
  have hclosing (t : Text) : dropClosingQuote t <+: t := by
    rw [dropClosingQuote, ← List.reverse_suffix, List.reverse_reverse]
    exact hopening t.reverse
  exact (hclosing _).isInfix.trans (hopening t).isInfix

/-! ## What a line shows -/

/-- A line without a print call shows nothing. -/
theorem lineEntries_of_none {d : Dialect} (h : d.argument? line = none) :
    d.lineEntries line = [] := by
  rw [lineEntries, h]

theorem lineEntries_of_some {d : Dialect} (h : d.argument? line = some argument) :
    d.lineEntries line = (d.present (d.resolve argument)).map .success := by
  rw [lineEntries, h]

/-! ## Python -/

/-- What a Python argument shows before its breaks are decoded. -/
def pythonContent (content : Text) : Text :=
  if isFormatted content then fillPlaceholders (literalBody content) else stripQuotes content

/-- An argument on one line says something on one line, before its breaks are decoded. -/
theorem feed_notMem_pythonContent (h : '\n' ∉ t) : '\n' ∉ pythonContent t := by
  unfold pythonContent
  split
  · exact feed_notMem_fillPlaceholders fun hmem => h ((literalBody_isInfix t).subset hmem)
  · exact fun hmem => h ((stripQuotes_isInfix t).subset hmem)

/-- In what Python shows, a break comes about by filling alone. -/
theorem breakMark_infix_pythonContent_iff (h : ¬ breakMark <:+: t) :
    breakMark <:+: pythonContent t ↔ isFormatted t = true ∧
      ∃ before behind, literalBody t = before ++ behind ∧ Meets before behind := by
  unfold pythonContent
  constructor
  · intro hmark
    split at hmark
    · next hformatted =>
      exact ⟨hformatted, exists_meeting (fun hbody => h (hbody.trans (literalBody_isInfix t))) hmark⟩
    · exact absurd (hmark.trans (stripQuotes_isInfix t)) h
  · rintro ⟨hformatted, before, behind, hbody, hmeets⟩
    rw [if_pos hformatted, hbody]
    exact hmeets.isInfix

/-- A Python line shows one entry more than its resolved argument has breaks. -/
theorem length_pythonEntries (h : pythonArgument? line = some argument) :
    (python.lineEntries line).length = (pythonResolve argument).count '\n' + 1 := by
  have hentries : python.lineEntries line =
      (Text.pieces '\n' (pythonResolve argument)).map .success := lineEntries_of_some h
  rw [hentries, List.length_map, Text.length_pieces]

/-- A Python line without a written break shows more than one entry only if filling a placeholder
writes one. -/
theorem python_single_iff (hline : '\n' ∉ line) (hmark : ¬ breakMark <:+: line)
    (hargument : pythonArgument? line = some argument) :
    (python.lineEntries line).length ≤ 1 ↔
      ¬ (isFormatted (Text.trim argument) = true ∧
        ∃ before behind, literalBody (Text.trim argument) = before ++ behind ∧
          Meets before behind) := by
  have hwithin : Text.trim argument <:+: line :=
    (Text.trim_infix argument).trans (infix_of_pythonArgument? hargument)
  have hfeed : '\n' ∉ pythonContent (Text.trim argument) :=
    feed_notMem_pythonContent fun hmem => hline (hwithin.subset hmem)
  have hresolve : pythonResolve argument = breakLines (pythonContent (Text.trim argument)) := rfl
  calc (python.lineEntries line).length ≤ 1
    _ ↔ (pythonResolve argument).count '\n' = 0 := by
      rw [length_pythonEntries hargument]
      omega
    _ ↔ '\n' ∉ breakLines (pythonContent (Text.trim argument)) := by
      rw [hresolve, List.count_eq_zero]
    _ ↔ ¬ breakMark <:+: pythonContent (Text.trim argument) :=
      not_congr (feed_mem_breakLines_iff hfeed)
    _ ↔ _ := not_congr (breakMark_infix_pythonContent_iff fun h => hmark (h.trans hwithin))

/-! ## Java -/

/-- The lines of a text that are not blank, trimmed. -/
def shownLines (t : Text) : List Text := ((Text.pieces '\n' t).map Text.trim).filter (· ≠ [])

/-- A line feed cuts what Java shows in two. -/
theorem shownLines_append (before behind : Text) :
    shownLines (before ++ '\n' :: behind) = shownLines before ++ shownLines behind := by
  rw [shownLines, Text.pieces_append, List.map_append, List.filter_append]
  rfl

/-- Java shows nothing of blank lines. -/
theorem shownLines_eq_nil_iff : shownLines t = [] ↔ ∀ c ∈ t, Text.isBlank c = true := by
  have hflat (c : Char) : (∃ piece ∈ Text.pieces '\n' t, c ∈ piece) ↔ c ∈ t ∧ c ≠ '\n' := by
    rw [← List.mem_flatten, Text.flatten_pieces]
    simp
  simp only [shownLines, List.filter_eq_nil_iff, List.forall_mem_map, decide_eq_true_eq, ne_eq,
    not_not, Text.trim_eq_nil_iff]
  constructor
  · intro h c hc
    by_cases hfeed : c = '\n'
    · rw [hfeed]
      decide
    · obtain ⟨piece, hpiece, hmem⟩ := (hflat c).mpr ⟨hc, hfeed⟩
      exact h piece hpiece c hmem
  · intro h piece hpiece c hc
    exact h c ((hflat c).mp ⟨piece, hpiece, hc⟩).1

/-- One line at most is shown of a text if, at each of its line feeds, one side is blank. -/
theorem length_shownLines_le_one_iff :
    (shownLines t).length ≤ 1 ↔ ∀ before behind, t = before ++ '\n' :: behind →
      (∀ c ∈ before, Text.isBlank c = true) ∨ ∀ c ∈ behind, Text.isBlank c = true := by
  constructor
  · rintro h before behind rfl
    rw [shownLines_append, List.length_append] at h
    rw [← shownLines_eq_nil_iff, ← shownLines_eq_nil_iff, ← List.length_eq_zero_iff,
      ← List.length_eq_zero_iff]
    omega
  · intro h
    induction hlength : t.length using Nat.strong_induction_on generalizing t with
    | h n ih =>
      by_cases hfeed : '\n' ∈ t
      · obtain ⟨before, behind, rfl, hbefore⟩ := List.eq_append_cons_of_mem hfeed
        have hone : (shownLines before).length ≤ 1 := by
          rw [shownLines, Text.pieces_of_notMem hbefore]
          exact List.length_filter_le _ _
        rw [shownLines_append, List.length_append]
        rcases h before behind rfl with hblank | hblank
        · rw [shownLines_eq_nil_iff.mpr hblank, List.length_nil, Nat.zero_add]
          refine ih behind.length ?_ ?_ rfl
          · rw [← hlength, List.length_append, List.length_cons]
            omega
          · rintro x y rfl
            refine (h (before ++ '\n' :: x) y (by simp)).imp_left fun hall c hc => ?_
            exact hall c (by simp [hc])
        · rw [shownLines_eq_nil_iff.mpr hblank]
          exact hone
      · rw [shownLines, Text.pieces_of_notMem hfeed]
        exact List.length_filter_le _ _

/-- Java shows one line at most if there is nothing but blanks on one side of every break. -/
theorem length_javaPresent_le_one_iff :
    (javaPresent t).length ≤ 1 ↔ ∀ before behind, t = before ++ '\n' :: behind →
      (∀ c ∈ before, Text.isBlank c = true) ∨ ∀ c ∈ behind, Text.isBlank c = true := by
  unfold javaPresent
  split
  · exact length_shownLines_le_one_iff
  · next hfeed =>
    refine iff_of_true (Nat.le_refl 1) ?_
    rintro before behind rfl
    exact absurd List.mem_append_cons_self hfeed

theorem length_javaEntries (h : javaArgument? line = some argument) :
    (java.lineEntries line).length = (javaPresent (unquoted (Text.trim argument))).length := by
  have hentries : java.lineEntries line =
      (javaPresent (unquoted (Text.trim argument))).map .success := lineEntries_of_some h
  rw [hentries, List.length_map]

/-- A Java line shows one entry at most if there is nothing but blanks on one side of every break,
quotes between its two characters or not. -/
theorem java_single_iff (hline : '\n' ∉ line) (hargument : javaArgument? line = some argument) :
    (java.lineEntries line).length ≤ 1 ↔
      ∀ before quotes behind,
        Text.trim argument = before ++ '\\' :: (quotes ++ 'n' :: behind) →
        (∀ q ∈ quotes, isQuote q = true) →
        (∀ c ∈ unquoted before, Text.isBlank c = true) ∨
          ∀ c ∈ unquoted behind, Text.isBlank c = true := by
  have hfeed : '\n' ∉ Text.trim argument := fun hmem =>
    hline (((Text.trim_infix argument).trans (infix_of_javaArgument? hargument)).subset hmem)
  rw [length_javaEntries hargument, length_javaPresent_le_one_iff]
  constructor
  · intro h before quotes behind hsplit hquotes
    refine h _ _ ((unquoted_eq_append_iff hfeed).mpr ?_)
    exact ⟨before, quotes, behind, hsplit, hquotes, rfl, rfl⟩
  · intro h _ _ hcut
    obtain ⟨before, quotes, behind, hsplit, hquotes, rfl, rfl⟩ :=
      (unquoted_eq_append_iff hfeed).mp hcut
    exact h before quotes behind hsplit hquotes

/-! ## Lines -/

/-- **Which lines show one entry at most**, of those in which no break is written: in Python, unless
filling brings a backslash and an `n` together; in Java, unless nothing but quotes stands between
the two, with something to show on either side. -/
theorem single_entry_iff (hline : '\n' ∉ line) (hmark : ¬ breakMark <:+: line) :
    ((python.lineEntries line).length ≤ 1 ↔
      ∀ argument, pythonArgument? line = some argument →
        isFormatted (Text.trim argument) = true →
        ∀ before behind, literalBody (Text.trim argument) = before ++ behind →
          ¬ Meets before behind) ∧
    ((java.lineEntries line).length ≤ 1 ↔
      ∀ argument, javaArgument? line = some argument →
        ∀ before quotes behind,
          Text.trim argument = before ++ '\\' :: (quotes ++ 'n' :: behind) →
          (∀ q ∈ quotes, isQuote q = true) →
          (∀ c ∈ unquoted before, Text.isBlank c = true) ∨
            ∀ c ∈ unquoted behind, Text.isBlank c = true) := by
  constructor
  · cases hargument : pythonArgument? line with
    | none =>
      have hnone : python.lineEntries line = [] := lineEntries_of_none hargument
      simp [hnone]
    | some argument =>
      rw [python_single_iff hline hmark hargument]
      simp
  · cases hargument : javaArgument? line with
    | none =>
      have hnone : java.lineEntries line = [] := lineEntries_of_none hargument
      simp [hnone]
    | some argument =>
      rw [java_single_iff hline hargument]
      simp

/-- A line with nothing to show in front of an escaped quote and an `n`. -/
theorem single_entry_behind_quote :
    let line : Text := "System.out.println(\"\\\"nb\");"
    '\n' ∉ line ∧ ¬ breakMark <:+: line ∧ java.lineEntries line = [.success "b"] ∧
      ((∀ c ∈ unquoted ['"'], Text.isBlank c = true) ∨
        ∀ c ∈ unquoted ['b', '"'], Text.isBlank c = true) := by
  intro line
  have hline : '\n' ∉ line := by decide
  have hmark : ¬ breakMark <:+: line := by decide +kernel
  have hentries : java.lineEntries line = [.success "b"] := by decide +kernel
  have hone : (java.lineEntries line).length ≤ 1 := by rw [hentries]; exact Nat.le_refl 1
  refine ⟨hline, hmark, hentries, ?_⟩
  exact (single_entry_iff hline hmark).2.mp hone "\"\\\"nb\"" (by decide) ['"'] ['"'] ['b', '"']
    (by decide) (by simp [isQuote])

/-- An escaped quote in front of an `n`, and a backslash in front of a placeholder: either line
shows two entries, though no break is written in it. -/
theorem broken_unwritten :
    let javaLine : Text := "System.out.println(\"a\\\"nb\");"
    let pythonLine : Text := "print(f\"a\\\x7bn\x7db\")"
    (¬ breakMark <:+: javaLine ∧ java.lineEntries javaLine = [.success "a", .success "b"]) ∧
      ¬ breakMark <:+: pythonLine ∧
        python.lineEntries pythonLine = [.success "a", .success "b"] := by
  decide

end Dialect

end Workbench
