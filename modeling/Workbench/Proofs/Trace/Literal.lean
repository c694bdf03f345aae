import Workbench.Proofs.Trace.Call

/-!
# Proofs/Trace/Literal — a string literal prints itself

Whatever stands in a string literal, the print call around it reaches to its last quote: blanks at
its ends are behind a quote and are not trimmed, and only the outer quotes are taken off.  So a line
that prints a literal shows the text of the literal, cut where breaks are written in it
(`literal_shown`).
-/

namespace Workbench

open Text Argument

namespace Dialect

variable {l : Language} {d : Dialect}

/-- Nothing that is said before or behind a run is shown by it. -/
theorem ne_success_of_mem_frame (h : of? l = some d) :
    ∀ e ∈ d.opening ++ d.closing, e.kind ≠ .success := by
  cases l with
  | python =>
    obtain rfl : python = d := Option.some.inj h
    decide
  | java =>
    obtain rfl : java = d := Option.some.inj h
    decide
  | html => cases h

/-- The successes of a trace are what its lines show. -/
theorem textsOf_trace (h : of? l = some d) (source : Text) :
    (trace l source).textsOf .success = (d.body source).map (·.text) := by
  have hnone {log : Log} (hlog : log ⊆ d.opening ++ d.closing) :
      log.filter (fun e => e.kind = .success) = [] :=
    List.filter_eq_nil_iff.mpr fun e he => by simpa using ne_success_of_mem_frame h e (hlog he)
  have hall : (d.body source).filter (fun e => e.kind = .success) = d.body source :=
    List.filter_eq_self.mpr fun e he => by simpa using (success_of_mem_body h he).1
  rw [Log.textsOf, trace_eq h, List.filter_append, List.filter_append,
    hnone (List.subset_append_left _ _), hnone (List.subset_append_right _ _), hall, List.nil_append,
    List.append_nil]

variable {before t behind : Text} {q q' : Char}

theorem isBlank_of_isQuote (hq : isQuote q = true) : isBlank q = false := by
  rcases (Bool.or_eq_true _ _).mp hq with hq | hq <;> rw [of_decide_eq_true hq] <;> decide

/-- The content of a literal is what stands between its quotes. -/
theorem isPythonContent_literal (hq : isQuote q = true) (hq' : isQuote q' = true) (t : Text) :
    IsPythonContent (q :: t ++ [q']) t := by
  refine .plain (fun q₂ u hsplit => ?_) (.quote hq) (.quote hq')
  obtain ⟨rfl, -⟩ := List.cons_eq_cons.mp hsplit
  cases hq

/-- A call is found behind a text that does not open one, and reaches to the last parenthesis. -/
theorem pythonCall_append (hbefore : ¬ "print(".toList <:+: before) (hbehind : ')' ∉ behind)
    (argument : Text) :
    PythonCall (before ++ "print(" ++ argument ++ ")" ++ behind) argument := by
  have hsplit : before ++ "print(" ++ argument ++ ")" ++ behind =
      before ++ ("print(".toList ++ (argument ++ ')' :: behind)) := by simp
  have hopening : "print(".toList = 'p' :: "rint(".toList := rfl
  refine ⟨before, behind, firstCut_of_cutFirst ?_, hbehind⟩
  rw [hsplit]
  exact cutFirst_append (by decide) (hopening ▸ hbefore)

/-- **A string literal prints itself**, whatever stands in it: what is shown of the line is the text
between the quotes, cut where breaks are written in it. -/
theorem literal_shown (hq : isQuote q = true) (hq' : isQuote q' = true) (ht : '\n' ∉ t)
    (hbefore : '\n' ∉ before) (hopening : ¬ "print(".toList <:+: before) (hbehind : '\n' ∉ behind)
    (hclosing : ')' ∉ behind) (texts : List Text) :
    (trace .python (before ++ "print(" ++ (q :: t ++ [q']) ++ ")" ++ behind)).textsOf .success =
      texts ↔ Splits breakMark t texts := by
  set argument : Text := q :: t ++ [q'] with hargument
  have hcall : pythonArgument? (before ++ "print(" ++ argument ++ ")" ++ behind) = some argument :=
    pythonArgument?_eq_some_iff.mpr (pythonCall_append hopening hclosing argument)
  have hquote {q : Char} (hq : isQuote q = true) : '\n' ≠ q := by
    rintro rfl
    cases hq
  have hfeed : '\n' ∉ argument := by
    simp only [hargument, List.mem_append, List.mem_cons, List.not_mem_nil, or_false, not_or]
    exact ⟨⟨hquote hq, ht⟩, hquote hq'⟩
  have hline : '\n' ∉ before ++ "print(" ++ argument ++ ")" ++ behind := by
    simp only [List.mem_append, not_or]
    exact ⟨⟨⟨⟨hbefore, by decide⟩, hfeed⟩, by decide⟩, hbehind⟩
  have hcontent {content : Text} : IsPythonContent (trim argument) content ↔ t = content := by
    rw [(Tight.of_ends (isBlank_of_isQuote hq) (isBlank_of_isQuote hq') t).trim_eq,
      isPythonContent_iff, isPythonContent_iff.mp (isPythonContent_literal hq hq' t)]
  calc (trace .python (before ++ "print(" ++ argument ++ ")" ++ behind)).textsOf .success = texts
    _ ↔ python.present (python.resolve argument) = texts := by
      have htext : (fun e : Log.Entry => e.text) ∘ Log.Entry.success = id := rfl
      rw [textsOf_trace rfl, body_of_notMem hline, lineEntries_of_some hcall, List.map_map, htext,
        List.map_id]
    _ ↔ PythonShows argument texts := (pythonShows_iff hfeed).symm
    _ ↔ Splits breakMark t texts := by simp only [PythonShows, hcontent, exists_eq_left']

/-- A literal that holds a print call, placeholders and two breaks in a row, and ends in a
backslash; its quotes differ. -/
theorem literal_shown_nested :
    let before : Text := "prin"
    let t : Text := " \x7bx\x7d)\\n\\nprint('\\"
    let behind : Text := " # print("
    isQuote '"' = true ∧ isQuote '\'' = true ∧ '\n' ∉ t ∧ '\n' ∉ before ∧
      ¬ "print(".toList <:+: before ∧ '\n' ∉ behind ∧ ')' ∉ behind ∧
      (trace .python (before ++ "print(" ++ ('"' :: t ++ ['\'']) ++ ")" ++ behind)).textsOf .success =
        [" \x7bx\x7d)", "", "print('\\"] := by
  intro before t behind
  have ht : '\n' ∉ t := by decide
  have hbefore : '\n' ∉ before := by decide
  have hopening : ¬ "print(".toList <:+: before := by decide
  have hbehind : '\n' ∉ behind := by decide
  have hclosing : ')' ∉ behind := by decide
  have hsplits : Splits breakMark t [" \x7bx\x7d)", "", "print('\\"] :=
    ⟨by decide, by decide, by decide⟩
  exact ⟨rfl, rfl, ht, hbefore, hopening, hbehind, hclosing,
    (literal_shown rfl rfl ht hbefore hopening hbehind hclosing _).mpr hsplits⟩

end Dialect
end Workbench
