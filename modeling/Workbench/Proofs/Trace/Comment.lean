import Workbench.Highlight.Lexeme
import Workbench.Proofs.Trace.Literal

/-!
# Proofs/Trace/Comment — comments are read like anything else

A trace looks for print calls wherever they are opened in a line, and the blanks and the sign with
which a comment begins open none.  So a line with nothing but a comment shows what the text of the
comment would show on its own (`CommentLine.lineEntries_eq`).  A source of such lines has an empty
trace exactly if no comment holds a call that is closed and shows something (`comments_silent_iff`);
a statement that was commented out still prints (`comment_prints`).
-/

namespace Workbench

open Text Highlight

/-- A call is not opened in a text without the character that opens it. -/
theorem callArgument_append {first : Char} {opening before : Text} {close : Text → Option Text}
    (hopening : opening.head? = some first) (hbefore : first ∉ before) (t : Text) :
    callArgument opening close (before ++ t) = callArgument opening close t := by
  obtain ⟨rest, rfl⟩ := List.head?_eq_some_iff.mp hopening
  induction before with
  | nil => rfl
  | cons c before ih =>
    obtain ⟨hc, hbefore⟩ := List.ne_and_not_mem_of_not_mem_cons hbefore
    rw [List.cons_append, callArgument, dropMark?, if_neg hc, Option.bind_none]
    exact ih hbefore

/-- What stands behind the first mark holds all that stands behind any. -/
theorem Text.exists_firstCut_mem_iff {mark t : Text} {c : Char} (hmark : mark ≠ []) :
    (∃ before behind, FirstCut mark t before behind ∧ c ∈ behind) ↔
      ∃ before inside behind, t = before ++ mark ++ inside ++ c :: behind := by
  constructor
  · rintro ⟨before, behind, hcut, hc⟩
    obtain ⟨inside, rest, rfl⟩ := List.append_of_mem hc
    exact ⟨before, inside, rest, by rw [hcut.split, List.append_assoc _ inside]⟩
  · rintro ⟨x, inside, rest, ht⟩
    have hx : t = x ++ mark ++ (inside ++ c :: rest) := by rw [ht, List.append_assoc _ inside]
    obtain ⟨⟨before, behind⟩, hfound⟩ :=
      Option.isSome_iff_exists.mp ((mentions_iff hmark).mpr ⟨x, _, hx.symm⟩)
    have hcut := firstCut_of_cutFirst hfound
    have hlength : (inside ++ c :: rest).length ≤ behind.length := by
      have hle := hcut.first x _ hx
      have hsame := congrArg List.length (hcut.split.symm.trans hx)
      rw [List.length_append, List.length_append, List.length_append, List.length_append] at hsame
      omega
    have hsuffix : inside ++ c :: rest <:+ behind :=
      List.suffix_of_suffix_length_le ⟨_, hx.symm⟩ ⟨_, hcut.split.symm⟩ hlength
    exact ⟨before, behind, hcut, hsuffix.subset List.mem_append_cons_self⟩

namespace Dialect

variable {l : Language} {d : Dialect} {source line comment t : Text}

/-! ## Lines that are comments -/

/-- A line with nothing but a comment on it, and the text of the comment. -/
inductive CommentLine (l : Language) : Text → Text → Prop
  | behind (lead sign comment : Text) : (∀ c ∈ lead, isBlank c = true) →
      .line sign ∈ commentForms l → CommentLine l (lead ++ sign ++ comment) comment

/-- **The sign of a comment makes no difference** to the call that is found. -/
theorem CommentLine.argument?_eq (h : of? l = some d) (hline : CommentLine l line comment) :
    d.argument? line = d.argument? comment := by
  obtain ⟨lead, sign, comment, hlead, hsign⟩ := hline
  have hnone {first : Char} (hfirst : isBlank first = false) (hmark : first ∉ sign) :
      first ∉ lead ++ sign := by
    refine List.not_mem_append (fun hmem => ?_) hmark
    rw [hlead first hmem] at hfirst
    cases hfirst
  cases l with
  | python =>
    obtain rfl : python = d := Option.some.inj h
    obtain rfl : sign = "#" := by simpa [commentForms] using hsign
    exact callArgument_append rfl (hnone (by decide) (by decide)) comment
  | java =>
    obtain rfl : java = d := Option.some.inj h
    obtain rfl : sign = "//" := by simpa [commentForms] using hsign
    exact callArgument_append rfl (hnone (by decide) (by decide)) comment
  | html => cases h

theorem CommentLine.lineEntries_eq (h : of? l = some d) (hline : CommentLine l line comment) :
    d.lineEntries line = d.lineEntries comment := by
  rw [lineEntries, lineEntries, hline.argument?_eq h]

theorem CommentLine.notMem {c : Char} (hline : CommentLine l line comment) (hc : c ∉ line) :
    c ∉ comment := by
  cases hline with
  | behind => exact fun hmem => hc (List.mem_append_right _ hmem)

theorem lineEntries_of_blank (h : of? l = some d) (hline : ∀ c ∈ line, isBlank c = true) :
    d.lineEntries line = [] := by
  have hnone {first : Char} (hfirst : isBlank first = false) : first ∉ line := fun hmem => by
    rw [hline first hmem] at hfirst
    cases hfirst
  refine lineEntries_of_none ?_
  rw [← List.append_nil line]
  cases l with
  | python =>
    obtain rfl : python = d := Option.some.inj h
    exact callArgument_append rfl (hnone (by decide)) []
  | java =>
    obtain rfl : java = d := Option.some.inj h
    exact callArgument_append rfl (hnone (by decide)) []
  | html => cases h

/-! ## Texts that show nothing -/

/-- A text that shows nothing.  In Python it holds no call that is closed; in Java it may hold one
whose argument is cut into parts that are all blank. -/
def Silent : Language → Text → Prop
  | .python, t => ¬ ∃ before argument behind, t = before ++ "print(" ++ argument ++ ')' :: behind
  | .java, t => ∀ argument, JavaCall t argument → JavaShows argument []
  | .html, _ => True

theorem lineEntries_eq_nil_iff : d.lineEntries line = [] ↔
    ∀ argument, d.argument? line = some argument → d.present (d.resolve argument) = [] := by
  rw [lineEntries]
  split <;> simp_all

theorem silent_iff (h : of? l = some d) (ht : '\n' ∉ t) : Silent l t ↔ d.lineEntries t = [] := by
  rw [lineEntries_eq_nil_iff]
  cases l with
  | python =>
    obtain rfl : python = d := Option.some.inj h
    have hcall : (∃ argument, PythonCall t argument) ↔
        ∃ before argument behind, t = before ++ "print(" ++ argument ++ ')' :: behind :=
      exists_pythonCall_iff.trans (exists_firstCut_mem_iff (by decide))
    rw [Silent, ← hcall, not_exists]
    refine forall_congr' fun argument => ?_
    rw [← pythonArgument?_eq_some_iff]
    exact imp_congr_right fun _ => iff_of_false id (pieces_ne_nil _ _)
  | java =>
    obtain rfl : java = d := Option.some.inj h
    refine forall_congr' fun argument => ?_
    rw [← javaArgument?_eq_some_iff]
    refine imp_congr_right fun hargument => javaShows_iff fun hfeed => ht ?_
    exact (infix_of_javaArgument? hargument).subset hfeed
  | html => cases h

/-! ## Sources that are comments -/

/-- **Comments show nothing** exactly if none of them holds a call that shows something: then the
trace is what is said before and behind every run, and has no success. -/
theorem comments_silent_iff (h : of? l = some d)
    (hsource : ∀ line ∈ pieces '\n' source,
      (∀ c ∈ line, isBlank c = true) ∨ ∃ comment, CommentLine l line comment) :
    (trace l source = d.opening ++ d.closing ↔
      ∀ line ∈ pieces '\n' source, ∀ comment, CommentLine l line comment → Silent l comment) ∧
    ((trace l source).textsOf .success = [] ↔ trace l source = d.opening ++ d.closing) := by
  have htrace : trace l source = d.opening ++ d.closing ↔ d.body source = [] := by
    rw [trace_eq h, List.append_assoc, List.append_cancel_left_eq, List.append_left_eq_self]
  constructor
  · rw [htrace, body, List.flatMap_eq_nil_iff]
    refine forall₂_congr fun line hline => ⟨fun hnone comment hcomment => ?_, fun hsilent => ?_⟩
    · have hfeed : '\n' ∉ comment := hcomment.notMem (notMem_of_mem_pieces hline)
      rwa [silent_iff h hfeed, ← hcomment.lineEntries_eq h]
    · rcases hsource line hline with hblank | ⟨comment, hcomment⟩
      · exact lineEntries_of_blank h hblank
      · have hfeed : '\n' ∉ comment := hcomment.notMem (notMem_of_mem_pieces hline)
        rw [hcomment.lineEntries_eq h, ← silent_iff h hfeed]
        exact hsilent comment hcomment
  · rw [textsOf_trace h, List.map_eq_nil_iff, htrace]

/-- A call that is closed without its semicolon, in a comment between blank lines. -/
theorem comments_silent_unclosed :
    let source : Text := " \t\r\n  // System.out.println(\"hidden\")\n"
    of? .java = some java ∧
      (∀ line ∈ pieces '\n' source,
        (∀ c ∈ line, isBlank c = true) ∨ ∃ comment, CommentLine .java line comment) ∧
      trace .java source = java.opening ++ java.closing ∧
      Silent .java " System.out.println(\"hidden\")" := by
  intro source
  have hlines : pieces '\n' source = [" \t\r", "  // System.out.println(\"hidden\")", ""] := by decide
  have hcomment : CommentLine .java "  // System.out.println(\"hidden\")"
      " System.out.println(\"hidden\")" :=
    .behind "  " "//" _ (trim_eq_nil_iff.mp (by decide)) List.mem_cons_self
  have hsource : ∀ line ∈ pieces '\n' source,
      (∀ c ∈ line, isBlank c = true) ∨ ∃ comment, CommentLine .java line comment := by
    rw [hlines]
    exact List.forall_mem_cons.mpr ⟨.inl (trim_eq_nil_iff.mp (by decide)),
      List.forall_mem_cons.mpr ⟨.inr ⟨_, hcomment⟩, List.forall_mem_singleton.mpr (.inl nofun)⟩⟩
  have htrace : trace .java source = java.opening ++ java.closing := by decide +kernel
  refine ⟨rfl, hsource, htrace, ?_⟩
  exact (comments_silent_iff rfl hsource).1.mp htrace _ (by rw [hlines]; simp) _ hcomment

/-- **What is commented out still prints**, in either language. -/
theorem comment_prints :
    let python : Text := "# print('hidden')"
    let java : Text := "// System.out.println(\"hidden\");"
    ((∀ line ∈ pieces '\n' python, ∃ comment, CommentLine .python line comment) ∧
      (trace .python python).textsOf .success = ["hidden"]) ∧
    (∀ line ∈ pieces '\n' java, ∃ comment, CommentLine .java line comment) ∧
      (trace .java java).textsOf .success = ["hidden"] := by
  intro python java
  have hpython : pieces '\n' python = [python] := by decide
  have hjava : pieces '\n' java = [java] := by decide
  rw [hpython, hjava, List.forall_mem_singleton, List.forall_mem_singleton]
  refine ⟨⟨⟨" print('hidden')", ?_⟩, by decide⟩, ⟨" System.out.println(\"hidden\");", ?_⟩, by decide⟩
  · exact .behind [] "#" _ nofun List.mem_cons_self
  · exact .behind [] "//" _ nofun List.mem_cons_self

end Dialect
end Workbench
