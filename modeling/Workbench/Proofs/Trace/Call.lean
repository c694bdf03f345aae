import Workbench.Proofs.Text.Occurrence
import Workbench.Proofs.Trace.Seam

/-!
# Proofs/Trace/Call — which lines print, and what they show

A print call is found by trying one place after the other, but it is always the first place at which
the call is opened: if it is not closed behind that, it is closed behind no later one
(`callArgument_eq`).  So the argument reaches from the first opening to the last parenthesis of the
line in Python, and to the first closing in Java (`pythonArgument?_eq_some_iff`,
`javaArgument?_eq_some_iff`).  What is shown of it is said by what is taken off its ends
(`IsPythonContent`) and by where breaks are written in what remains (`calls_shown`).  A call shows
something, but for one in Java whose breaks have nothing between them (`Hollow`).
-/

namespace Workbench

open Text Argument

variable {opening line argument t : Text} {close : Text → Option Text}

/-! ## Where a call is -/

theorem exists_of_callArgument (h : callArgument opening close t = some argument) :
    ∃ x rest, t = x ++ (opening ++ rest) ∧ close rest = some argument := by
  induction t with
  | nil => cases h
  | cons c t ih =>
    rw [callArgument] at h
    split at h
    · next found hfound =>
      obtain rfl := Option.some.inj h
      obtain ⟨rest, hdrop, hclose⟩ := Option.bind_eq_some_iff.mp hfound
      exact ⟨[], rest, by rw [dropMark?_eq_some.mp hdrop]; rfl, hclose⟩
    · obtain ⟨x, rest, rfl, hclose⟩ := ih h
      exact ⟨c :: x, rest, rfl, hclose⟩

/-- **The first opening decides**, if a call that is not closed behind it is closed behind no later
one. -/
theorem callArgument_eq (hopening : opening ≠ [])
    (hclose : ∀ rest later, close rest = none → later <:+ rest → close later = none) (t : Text) :
    callArgument opening close t = (cutFirst opening t).bind fun (_, rest) => close rest := by
  induction t with
  | nil => rfl
  | cons c t ih =>
    rw [callArgument, cutFirst]
    cases hdrop : dropMark? opening (c :: t) with
    | none =>
      rw [Option.bind_none, ih]
      cases cutFirst opening t <;> rfl
    | some rest =>
      cases hrest : close rest with
      | some found => simp [hrest]
      | none =>
        have hlater : callArgument opening close t = none := by
          rw [Option.eq_none_iff_forall_ne_some]
          intro argument hfound
          obtain ⟨x, later, rfl, hlater⟩ := exists_of_callArgument hfound
          have hlength := List.length_pos_iff.mpr hopening
          have hsplit : c :: (x ++ (opening ++ later)) = opening ++ rest :=
            dropMark?_eq_some.mp hdrop
          have hsuffix : later <:+ rest := by
            have hwithin : later <:+ opening ++ rest :=
              ⟨c :: (x ++ opening), by rw [← hsplit]; simp⟩
            refine List.suffix_of_suffix_length_le hwithin (List.suffix_append _ _) ?_
            have := congrArg List.length hsplit
            simp only [List.length_cons, List.length_append] at this
            omega
          rw [hclose rest later hrest hsuffix] at hlater
          cases hlater
        simp [hrest, hlater]

namespace Dialect

/-- The argument of a Python call: it reaches from the first opening to the last parenthesis of the
line. -/
def PythonCall (line argument : Text) : Prop :=
  ∃ before rest, FirstCut "print(" line before (argument ++ ')' :: rest) ∧ ')' ∉ rest

/-- The argument of a Java call: it reaches from the first opening to the first closing behind
that. -/
def JavaCall (line argument : Text) : Prop :=
  ∃ before behind rest, FirstCut "System.out.println(" line before behind ∧
    FirstCut ");" behind argument rest

/-- **A Python argument is found** where the rule for calls has it. -/
theorem pythonArgument?_eq_some_iff :
    pythonArgument? line = some argument ↔ PythonCall line argument := by
  have hclose : ∀ rest later, beforeLast ')' rest = none → later <:+ rest →
      beforeLast ')' later = none := fun rest later hnone hlater =>
    beforeLast_eq_none.mpr fun hmem => beforeLast_eq_none.mp hnone (hlater.subset hmem)
  rw [pythonArgument?, callArgument_eq (by decide) hclose, Option.bind_eq_some_iff]
  constructor
  · rintro ⟨⟨before, behind⟩, hcut, hargument⟩
    obtain ⟨rest, rfl, hrest⟩ := beforeLast_eq_some_iff.mp hargument
    exact ⟨before, rest, firstCut_of_cutFirst hcut, hrest⟩
  · rintro ⟨before, rest, hcut, hrest⟩
    exact ⟨_, (cutFirst_eq_some_iff (by decide)).mpr hcut, beforeLast_append_cons argument hrest⟩

/-- **A Java argument is found** where the rule for calls has it. -/
theorem javaArgument?_eq_some_iff :
    javaArgument? line = some argument ↔ JavaCall line argument := by
  have hclose : ∀ rest later : Text, (cutFirst ");" rest).map (·.1) = none → later <:+ rest →
      (cutFirst ");" later).map (·.1) = none := by
    intro rest later hnone hlater
    have hmark : ");".toList ≠ [] := by decide
    rw [Option.map_eq_none_iff] at hnone ⊢
    refine cutFirst_eq_none ((not_mentions_iff hmark).mpr fun hwithin => ?_)
    have hmentions := (mentions_iff hmark).mpr (hwithin.trans hlater.isInfix)
    rw [mentions, hnone] at hmentions
    cases hmentions
  rw [javaArgument?, callArgument_eq (by decide) hclose, Option.bind_eq_some_iff]
  constructor
  · rintro ⟨⟨before, behind⟩, hcut, hargument⟩
    obtain ⟨⟨before', rest⟩, hcut', rfl⟩ := Option.map_eq_some_iff.mp hargument
    exact ⟨before, behind, rest, firstCut_of_cutFirst hcut, firstCut_of_cutFirst hcut'⟩
  · rintro ⟨before, behind, rest, hcut, hcut'⟩
    have hargument : cutFirst ");" behind = some (argument, rest) :=
      (cutFirst_eq_some_iff (by decide)).mpr hcut'
    exact ⟨_, (cutFirst_eq_some_iff (by decide)).mpr hcut, by simp only [hargument]; rfl⟩

/-- A line prints in Python if anything behind its first opening closes a parenthesis. -/
theorem exists_pythonCall_iff : (∃ argument, PythonCall line argument) ↔
    ∃ before behind, FirstCut "print(" line before behind ∧ ')' ∈ behind := by
  constructor
  · rintro ⟨argument, before, rest, hcut, -⟩
    exact ⟨before, _, hcut, List.mem_append_cons_self⟩
  · rintro ⟨before, behind, hcut, hmem⟩
    obtain ⟨argument, hargument⟩ :=
      Option.ne_none_iff_exists'.mp fun hnone => beforeLast_eq_none.mp hnone hmem
    obtain ⟨rest, rfl, hrest⟩ := beforeLast_eq_some_iff.mp hargument
    exact ⟨argument, before, rest, hcut, hrest⟩

/-- A line prints in Java if anything behind its first opening closes a call. -/
theorem exists_javaCall_iff : (∃ argument, JavaCall line argument) ↔
    ∃ before behind, FirstCut "System.out.println(" line before behind ∧
      ");".toList <:+: behind := by
  constructor
  · rintro ⟨argument, before, behind, rest, hcut, hclose⟩
    exact ⟨before, behind, hcut, argument, rest, hclose.split.symm⟩
  · rintro ⟨before, behind, hcut, hwithin⟩
    obtain ⟨⟨argument, rest⟩, hclose⟩ :=
      Option.isSome_iff_exists.mp ((mentions_iff (by decide)).mpr hwithin)
    exact ⟨argument, before, behind, rest, hcut, firstCut_of_cutFirst hclose⟩

/-! ## What is shown of an argument -/

/-- A quote is taken off the start of a text, if it has one there. -/
inductive OpeningTaken : Text → Text → Prop
  | quote {q : Char} {t : Text} : isQuote q = true → OpeningTaken (q :: t) t
  | bare {t : Text} : (∀ q s, t = q :: s → isQuote q = false) → OpeningTaken t t

/-- A quote is taken off the end of a text, if it has one there. -/
inductive ClosingTaken : Text → Text → Prop
  | quote {q : Char} {t : Text} : isQuote q = true → ClosingTaken (t ++ [q]) t
  | bare {t : Text} : (∀ s q, t = s ++ [q] → isQuote q = false) → ClosingTaken t t

/-- What a Python argument says: if it begins as a formatted literal does, all but its first two
characters and its last one, with placeholders filled; else all but one quote at each end. -/
inductive IsPythonContent : Text → Text → Prop
  | formatted {q : Char} {t : Text} : isQuote q = true →
      IsPythonContent ('f' :: q :: t) (fillPlaceholders t.dropLast)
  | plain {t s inner : Text} : (∀ q u, t = 'f' :: q :: u → isQuote q = false) →
      OpeningTaken t s → ClosingTaken s inner → IsPythonContent t inner

/-- What is shown of a Python argument: all that stands between the breaks that are written in it. -/
def PythonShows (argument : Text) (texts : List Text) : Prop :=
  ∃ content, IsPythonContent (trim argument) content ∧ Splits breakMark content texts

/-- What is shown of a Java argument: all of it if no break is written in it, else what stands
between the breaks, trimmed and without what is blank. -/
def JavaShows (argument : Text) (texts : List Text) : Prop :=
  ∃ parts, Splits breakMark (joinOperands (dropQuotes (trim argument))) parts ∧
    texts = if parts.length = 1 then parts else (parts.map trim).filter (· ≠ [])

/-- A Java argument that shows nothing, though it is one: breaks are written in it, and all that
stands between them is blank. -/
def Hollow (argument : Text) : Prop :=
  ∃ parts, Splits breakMark (joinOperands (dropQuotes (trim argument))) parts ∧
    1 < parts.length ∧ ∀ part ∈ parts, ∀ c ∈ part, isBlank c = true

/-- Only a hollow argument shows nothing. -/
theorem javaShows_nil_iff : JavaShows argument [] ↔ Hollow argument := by
  constructor
  · rintro ⟨parts, hparts, hnone⟩
    have hpos := List.length_pos_iff.mpr hparts.nonempty
    split at hnone
    · exact absurd hnone.symm hparts.nonempty
    · next hmany =>
      refine ⟨parts, hparts, by omega, fun part hpart => trim_eq_nil_iff.mp ?_⟩
      simpa using List.filter_eq_nil_iff.mp hnone.symm (trim part) (List.mem_map_of_mem hpart)
  · rintro ⟨parts, hparts, hmany, hblank⟩
    refine ⟨parts, hparts, ?_⟩
    rw [if_neg (by omega), eq_comm, List.filter_eq_nil_iff, List.forall_mem_map]
    intro part hpart
    simpa using trim_eq_nil_iff.mpr (hblank part hpart)

theorem openingTaken_iff {t s : Text} : OpeningTaken t s ↔ dropOpeningQuote t = s := by
  constructor
  · rintro (hq | hbare)
    · rw [dropOpeningQuote, if_pos hq]
    · cases t with
      | nil => rfl
      | cons c t => rw [dropOpeningQuote, if_neg (by simp [hbare c t rfl])]
  · rintro rfl
    cases t with
    | nil => exact .bare (by simp)
    | cons c t =>
      by_cases hc : isQuote c = true
      · rw [dropOpeningQuote, if_pos hc]
        exact .quote hc
      · rw [dropOpeningQuote, if_neg hc]
        refine .bare fun q s hcons => ?_
        obtain ⟨rfl, -⟩ := List.cons_eq_cons.mp hcons
        exact Bool.eq_false_iff.mpr hc

theorem closingTaken_iff_reverse {t s : Text} :
    ClosingTaken t s ↔ OpeningTaken t.reverse s.reverse := by
  constructor
  · rintro (hq | hbare)
    · rw [List.reverse_concat]
      exact .quote hq
    · refine .bare fun q s hs => hbare s.reverse q ?_
      rw [← List.reverse_reverse t, hs, List.reverse_cons]
  · intro h
    generalize hr : t.reverse = r at h
    generalize hu : s.reverse = u at h
    cases h with
    | quote hq =>
      obtain rfl := List.reverse_eq_iff.mp hu
      obtain rfl := List.reverse_eq_iff.mp hr
      rw [List.reverse_cons]
      exact .quote hq
    | bare hbare =>
      obtain rfl := List.reverse_injective (hr.trans hu.symm)
      refine .bare fun s q hs => hbare q s.reverse ?_
      rw [← hr, hs, List.reverse_concat]

theorem closingTaken_iff {t s : Text} : ClosingTaken t s ↔ dropClosingQuote t = s := by
  rw [closingTaken_iff_reverse, openingTaken_iff, dropClosingQuote, List.reverse_eq_iff]

theorem isFormatted_iff {t : Text} :
    isFormatted t = true ↔ ∃ q u, t = 'f' :: q :: u ∧ isQuote q = true := by
  simp only [isFormatted, Bool.or_eq_true, Option.isSome_iff_exists, dropMark?_eq_some]
  constructor
  · rintro (⟨u, rfl⟩ | ⟨u, rfl⟩)
    · exact ⟨'"', u, rfl, rfl⟩
    · exact ⟨'\'', u, rfl, rfl⟩
  · rintro ⟨q, u, rfl, hq⟩
    rcases (Bool.or_eq_true _ _).mp hq with hq | hq
    · exact .inl ⟨u, by rw [of_decide_eq_true hq]; rfl⟩
    · exact .inr ⟨u, by rw [of_decide_eq_true hq]; rfl⟩

/-- What a Python argument says is what the rules leave of it. -/
theorem isPythonContent_iff {t content : Text} :
    IsPythonContent t content ↔ pythonContent t = content := by
  constructor
  · rintro (hq | ⟨hplain, hopening, hclosing⟩)
    · rw [pythonContent, if_pos (isFormatted_iff.mpr ⟨_, _, rfl, hq⟩)]
      rfl
    · have hformatted : ¬ isFormatted t = true := fun h => by
        obtain ⟨q, u, rfl, hq⟩ := isFormatted_iff.mp h
        rw [hplain q u rfl] at hq
        cases hq
      rw [pythonContent, if_neg hformatted, stripQuotes, openingTaken_iff.mp hopening,
        closingTaken_iff.mp hclosing]
  · rintro rfl
    by_cases hformatted : isFormatted t = true
    · rw [pythonContent, if_pos hformatted]
      obtain ⟨q, u, rfl, hq⟩ := isFormatted_iff.mp hformatted
      exact .formatted hq
    · rw [pythonContent, if_neg hformatted]
      refine .plain (fun q u hsplit => ?_) (openingTaken_iff.mpr rfl) (closingTaken_iff.mpr rfl)
      exact Bool.eq_false_iff.mpr fun hq => hformatted (isFormatted_iff.mpr ⟨q, u, hsplit, hq⟩)

theorem breakLines_of_not_infix {t : Text} (h : ¬ breakMark <:+: t) : breakLines t = t := by
  induction t with
  | nil => rfl
  | cons c t ih =>
    rw [breakLines_cons, ih fun hwithin => h (List.infix_cons hwithin)]
    rintro ⟨rfl, hn⟩
    obtain ⟨rest, rfl⟩ := List.head?_eq_some_iff.mp hn
    exact h ⟨[], rest, rfl⟩

/-- Decoding turns the marks between parts into line feeds. -/
theorem breakLines_joined {parts : List Text} (h : ∀ part ∈ parts, ¬ breakMark <:+: part) :
    breakLines (joined breakMark parts) = joined ['\n'] parts := by
  induction parts with
  | nil => rfl
  | cons part parts ih =>
    obtain ⟨hpart, hrest⟩ := List.forall_mem_cons.mp h
    by_cases hparts : parts = []
    · subst hparts
      exact breakLines_of_not_infix hpart
    · have hsplit : part ++ breakMark ++ joined breakMark parts =
          part ++ '\\' :: 'n' :: joined breakMark parts := by simp [breakMark]
      rw [joined_cons _ _ hparts, joined_cons _ _ hparts, hsplit, breakLines_append,
        breakLines_of_not_infix hpart, ih hrest, List.append_assoc, List.singleton_append]

/-- Decoding and then cutting into lines is cutting at the breaks that are written. -/
theorem splits_breakMark_iff {t : Text} {parts : List Text} (ht : '\n' ∉ t) :
    Splits breakMark t parts ↔ pieces '\n' (breakLines t) = parts := by
  have hpieces {parts : List Text} (h : Splits breakMark t parts) :
      pieces '\n' (breakLines t) = parts := by
    rw [← h.joined, breakLines_joined h.unmarked]
    refine pieces_joined h.nonempty fun part hpart hfeed => ht ?_
    rw [← h.joined]
    exact (infix_joined hpart).subset hfeed
  refine ⟨hpieces, ?_⟩
  rintro rfl
  obtain ⟨parts, hparts⟩ := exists_splits (List.cons_ne_nil '\\' ['n']) t
  have := hpieces hparts
  rwa [this]

/-- What a Python argument shows is what the rules say. -/
theorem pythonShows_iff {texts : List Text} (h : '\n' ∉ argument) :
    PythonShows argument texts ↔ python.present (python.resolve argument) = texts := by
  have hcontent : '\n' ∉ pythonContent (trim argument) :=
    feed_notMem_pythonContent fun hmem => h ((Text.trim_infix argument).subset hmem)
  calc PythonShows argument texts
    _ ↔ Splits breakMark (pythonContent (trim argument)) texts := by
      simp only [PythonShows, isPythonContent_iff, exists_eq_left']
    _ ↔ python.present (python.resolve argument) = texts := splits_breakMark_iff hcontent

/-- A text shows as a whole if there is only one part. -/
theorem javaPresent_breakLines {t : Text} {parts : List Text} (ht : '\n' ∉ t)
    (h : Splits breakMark t parts) : javaPresent (breakLines t) =
      if parts.length = 1 then parts else (parts.map trim).filter (· ≠ []) := by
  obtain rfl := (splits_breakMark_iff ht).mp h
  unfold javaPresent
  by_cases hfeed : '\n' ∈ breakLines t
  · have hmany : (pieces '\n' (breakLines t)).length ≠ 1 := by
      have := List.count_pos_iff.mpr hfeed
      rw [length_pieces]
      omega
    rw [if_pos hfeed, if_neg hmany]
  · rw [if_neg hfeed, pieces_of_notMem hfeed, if_pos (List.length_singleton ..)]

/-- What a Java argument shows is what the rules say. -/
theorem javaShows_iff {texts : List Text} (h : '\n' ∉ argument) :
    JavaShows argument texts ↔ java.present (java.resolve argument) = texts := by
  have hjoined : '\n' ∉ joinOperands (dropQuotes (trim argument)) :=
    feed_notMem_joined fun hmem => h ((Text.trim_infix argument).subset hmem)
  have hpresent : java.present (java.resolve argument) =
      javaPresent (breakLines (joinOperands (dropQuotes (trim argument)))) := rfl
  rw [hpresent]
  constructor
  · rintro ⟨parts, hparts, rfl⟩
    exact javaPresent_breakLines hjoined hparts
  · rintro rfl
    obtain ⟨parts, hparts⟩ := exists_splits (List.cons_ne_nil '\\' ['n'])
      (joinOperands (dropQuotes (trim argument)))
    exact ⟨parts, hparts, javaPresent_breakLines hjoined hparts⟩

/-! ## What a line shows -/

/-- What a line shows by the rules for calls and their arguments: nothing, unless it has a call. -/
def LineShows (calls : Text → Text → Prop) (shows : Text → List Text → Prop) (line : Text)
    (texts : List Text) : Prop :=
  (∃ argument, calls line argument ∧ shows argument texts) ∨
    (¬ ∃ argument, calls line argument) ∧ texts = []

/-- A dialect that follows its rules shows what they say, and they say one thing only. -/
theorem exists_body_eq (d : Dialect) {calls : Text → Text → Prop} {shows : Text → List Text → Prop}
    (hline : '\n' ∉ line) (hcalls : ∀ argument, d.argument? line = some argument ↔ calls line argument)
    (hshows : ∀ argument, calls line argument → ∀ texts,
      shows argument texts ↔ d.present (d.resolve argument) = texts) :
    ∃ texts, d.body line = texts.map .success ∧
      ∀ other, LineShows calls shows line other ↔ other = texts := by
  rw [body_of_notMem hline]
  cases hargument : d.argument? line with
  | none =>
    have hnone : ¬ ∃ argument, calls line argument := by
      rintro ⟨argument, hcall⟩
      rw [(hcalls argument).mpr hcall] at hargument
      cases hargument
    refine ⟨[], lineEntries_of_none hargument, fun other => ⟨?_, fun h => .inr ⟨hnone, h⟩⟩⟩
    rintro (⟨argument, hcall, -⟩ | ⟨-, rfl⟩)
    · exact absurd ⟨argument, hcall⟩ hnone
    · rfl
  | some argument =>
    have hcall : calls line argument := (hcalls argument).mp hargument
    have hunique {argument' : Text} (h : calls line argument') : argument' = argument :=
      Option.some.inj (((hcalls argument').mpr h).symm.trans hargument)
    refine ⟨_, lineEntries_of_some hargument, fun other => ⟨?_, ?_⟩⟩
    · rintro (⟨argument', hcall', hother⟩ | ⟨hnone, -⟩)
      · obtain rfl := hunique hcall'
        exact ((hshows argument' hcall' other).mp hother).symm
      · exact absurd ⟨argument, hcall⟩ hnone
    · rintro rfl
      exact .inl ⟨argument, hcall, (hshows argument hcall _).mpr rfl⟩

/-- Such a dialect appends something for a line if it has a call that does not show nothing. -/
theorem body_ne_nil_iff (d : Dialect) {calls : Text → Text → Prop}
    {shows : Text → List Text → Prop} (hline : '\n' ∉ line)
    (hcalls : ∀ argument, d.argument? line = some argument ↔ calls line argument)
    (hshows : ∀ argument, calls line argument → ∀ texts,
      shows argument texts ↔ d.present (d.resolve argument) = texts) :
    d.body line ≠ [] ↔ ∃ argument, calls line argument ∧ ¬ shows argument [] := by
  obtain ⟨texts, hbody, htexts⟩ := d.exists_body_eq hline hcalls hshows
  have hnone : d.body line = [] ↔ LineShows calls shows line [] := by
    rw [hbody, List.map_eq_nil_iff, htexts, eq_comm]
  rw [ne_eq, hnone, LineShows, not_or]
  constructor
  · rintro ⟨hsolid, hcalled⟩
    obtain ⟨argument, hcall⟩ := not_not.mp fun hnone => hcalled ⟨hnone, rfl⟩
    exact ⟨argument, hcall, fun hshow => hsolid ⟨argument, hcall, hshow⟩⟩
  · rintro ⟨argument, hcall, hsolid⟩
    refine ⟨?_, fun ⟨hnone, _⟩ => hnone ⟨argument, hcall⟩⟩
    rintro ⟨argument', hcall', hshow⟩
    obtain rfl : argument' = argument :=
      Option.some.inj (((hcalls argument').mpr hcall').symm.trans ((hcalls argument).mpr hcall))
    exact hsolid hshow

/-- **Which lines print, and what they show.**  A line prints if a call is closed anywhere behind
its first opening.  What it shows follows from the argument by the rules of the language, which
leave no choice.  In Python that is always something; in Java it is, unless the argument is hollow. -/
theorem calls_shown (hline : '\n' ∉ line) :
    (((∃ argument, PythonCall line argument) ↔
        ∃ before behind, FirstCut "print(" line before behind ∧ ')' ∈ behind) ∧
      (python.body line ≠ [] ↔ ∃ argument, PythonCall line argument) ∧
      ∃ texts, python.body line = texts.map .success ∧
        ∀ other, LineShows PythonCall PythonShows line other ↔ other = texts) ∧
    (((∃ argument, JavaCall line argument) ↔
        ∃ before behind, FirstCut "System.out.println(" line before behind ∧
          ");".toList <:+: behind) ∧
      (java.body line ≠ [] ↔ ∃ argument, JavaCall line argument ∧ ¬ Hollow argument) ∧
      ∃ texts, java.body line = texts.map .success ∧
        ∀ other, LineShows JavaCall JavaShows line other ↔ other = texts) := by
  have hpythonShows (argument : Text) (hcall : PythonCall line argument) (texts : List Text) :
      PythonShows argument texts ↔ python.present (python.resolve argument) = texts :=
    pythonShows_iff fun hfeed =>
      hline ((infix_of_pythonArgument? (pythonArgument?_eq_some_iff.mpr hcall)).subset hfeed)
  have hjavaShows (argument : Text) (hcall : JavaCall line argument) (texts : List Text) :
      JavaShows argument texts ↔ java.present (java.resolve argument) = texts :=
    javaShows_iff fun hfeed =>
      hline ((infix_of_javaArgument? (javaArgument?_eq_some_iff.mpr hcall)).subset hfeed)
  have hpython : python.body line ≠ [] ↔ ∃ argument, PythonCall line argument := by
    rw [python.body_ne_nil_iff hline (fun _ => pythonArgument?_eq_some_iff) hpythonShows]
    exact exists_congr fun _ => and_iff_left fun ⟨_, _, hparts⟩ => hparts.nonempty rfl
  have hjava : java.body line ≠ [] ↔ ∃ argument, JavaCall line argument ∧ ¬ Hollow argument := by
    rw [java.body_ne_nil_iff hline (fun _ => javaArgument?_eq_some_iff) hjavaShows]
    simp only [javaShows_nil_iff]
  exact ⟨⟨exists_pythonCall_iff, hpython,
      python.exists_body_eq hline (fun _ => pythonArgument?_eq_some_iff) hpythonShows⟩,
    exists_javaCall_iff, hjava,
    java.exists_body_eq hline (fun _ => javaArgument?_eq_some_iff) hjavaShows⟩

/-- A line with a call in either language: Python's reaches beyond the parenthesis that closes it,
Java's beyond the first parenthesis in it. -/
theorem calls_shown_nested :
    let line : Text := "System.out.println(\"a)\" + print('é'));"
    '\n' ∉ line ∧ PythonCall line "'é')" ∧ JavaCall line "\"a)\" + print('é')" ∧
      python.body line = [.success "é')"] ∧ java.body line = [.success "a) print(é)"] := by
  intro line
  have hline : '\n' ∉ line := by decide
  have hpython : PythonCall line "'é')" := pythonArgument?_eq_some_iff.mp (by decide)
  have hjava : JavaCall line "\"a)\" + print('é')" := javaArgument?_eq_some_iff.mp (by decide)
  obtain ⟨⟨-, -, shown, hbody, hshown⟩, -, -, shown', hbody', hshown'⟩ := calls_shown hline
  have hshows : PythonShows "'é')" ["é')"] := (pythonShows_iff (by decide)).mpr (by decide)
  have hshows' : JavaShows "\"a)\" + print('é')" ["a) print(é)"] :=
    (javaShows_iff (by decide)).mpr (by decide)
  obtain rfl := (hshown _).mp (.inl ⟨_, hpython, hshows⟩)
  obtain rfl := (hshown' _).mp (.inl ⟨_, hjava, hshows'⟩)
  exact ⟨hline, hpython, hjava, hbody, hbody'⟩

/-- A written break with nothing around it. -/
example : java.body "System.out.println(\"\\n\");" = [] := by decide

end Dialect
end Workbench
